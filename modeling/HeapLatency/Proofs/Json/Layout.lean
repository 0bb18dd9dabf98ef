import HeapLatency.Proofs.Json.Readers
import Mathlib.Data.List.Forall2

/-!
# Lists and records one item a line

A list or a record whose lines are read, each by its own reader, is read as a whole. The fields of
a record are read in the order in which they stand, and each changes the state once.
-/

namespace HeapLatency.JsonScan

open Json (block indent openBrace closeBrace quoteText)

/-! ## Lines -/

def newLine (depth : Nat) : Bytes := byte '\n' :: bytesOf (indent depth)

/-- The bytes behind a line of a block: the other lines, then the end. -/
def following (depth : Nat) (closing : String) : List String → Bytes
  | [] => newLine depth ++ bytesOf closing
  | line :: lines =>
    byte ',' :: (newLine (depth + 1) ++ (bytesOf line ++ following depth closing lines))

theorem blank_newLine (depth : Nat) : (newLine depth).all isBlankByte = true := by
  have hspaces (n : Nat) : (Utf8.encode (List.replicate n ' ')).all isBlankByte = true := by
    induction n with
    | zero => rfl
    | succ n ih =>
      rw [List.replicate_succ, Utf8.encode_cons, List.all_append, ih]
      rfl
  rw [newLine, bytesOf, indent, String.toList_ofList, List.all_cons, hspaces]
  rfl

theorem bytesOf_block_nil (opening closing : String) (depth : Nat) :
    bytesOf (block opening closing depth []) = bytesOf opening ++ bytesOf closing :=
  bytesOf_append opening closing

theorem bytesOf_block_cons (opening closing : String) (depth : Nat) (line : String)
    (lines : List String) :
    bytesOf (block opening closing depth (line :: lines)) =
      bytesOf opening ++
        (newLine (depth + 1) ++ (bytesOf line ++ following depth closing lines)) := by
  have hlines (line : String) (lines : List String) :
      bytesOf (",\n".intercalate ((line :: lines).map fun line => indent (depth + 1) ++ line) ++
          "\n" ++ indent depth ++ closing) =
        bytesOf (indent (depth + 1)) ++ (bytesOf line ++ following depth closing lines) := by
    induction lines generalizing line with
    | nil =>
      rw [List.map_singleton, String.intercalate_singleton, following, newLine]
      simp only [bytesOf_append, List.append_assoc]
      rfl
    | cons next lines ih =>
      rw [List.map_cons, List.map_cons, String.intercalate_cons_cons, ← List.map_cons]
      simp only [bytesOf_append, List.append_assoc] at ih ⊢
      rw [ih next, following, newLine]
      rfl
  rw [block, List.isEmpty_cons, if_neg Bool.false_ne_true]
  have hopening := hlines line lines
  simp only [bytesOf_append, List.append_assoc] at hopening ⊢
  rw [hopening]
  rfl

theorem ends_following (depth : Nat) {closing : String} (lines : List String) (rest : Bytes) :
    Ends (following depth closing lines ++ rest) := by
  cases lines with
  | nil => exact ⟨rfl, fun h => absurd (Option.some.inj h) (by decide), rfl⟩
  | cons line lines => exact ⟨rfl, fun h => absurd (Option.some.inj h) (by decide), rfl⟩

theorem length_le_following (depth : Nat) (closing : String) (lines : List String) :
    lines.length ≤ (following depth closing lines).length := by
  induction lines with
  | nil => exact Nat.zero_le _
  | cons line lines ih =>
    rw [following, List.length_cons, List.length_cons, List.length_append, List.length_append]
    omega

/-- Every line but the first has a byte of its own behind the first. -/
theorem length_lt_lines (depth : Nat) (closing line : String) (lines : List String) (rest : Bytes) :
    lines.length < (newLine (depth + 1) ++
      (bytesOf line ++ (following depth closing lines ++ rest))).length := by
  have := length_le_following depth closing lines
  simp only [newLine, List.length_append, List.length_cons]
  omega

/-! ## Lists -/

section Items

variable {α : Type} {item : JsonReader α} {depth : Nat} {rest : Bytes}

theorem nextItem_finished (first : Bool) {blanks : Bytes}
    (hblanks : blanks.all isBlankByte = true) :
    nextItem first (blanks ++ byte ']' :: rest) = .ok (.finished rest) := by
  rw [nextItem, skipBlanks_append hblanks rfl]
  rfl

theorem nextItem_first {blanks others : Bytes} {b : UInt8} (hblanks : blanks.all isBlankByte = true)
    (hblank : isBlankByte b = false) (hclosing : b ≠ byte ']') :
    nextItem true (blanks ++ b :: others) = .ok (.more (b :: others)) := by
  rw [nextItem, skipBlanks_append hblanks hblank]
  simp only
  rw [if_neg hclosing, if_pos trivial]

theorem nextItem_later {blanks others : Bytes} {b : UInt8} (hblanks : blanks.all isBlankByte = true)
    (hblank : isBlankByte b = false) (hclosing : b ≠ byte ']') :
    nextItem false (byte ',' :: (blanks ++ b :: others)) = .ok (.more (b :: others)) := by
  have hcomma : skipBlanks (byte ',' :: (blanks ++ b :: others)) =
      byte ',' :: (blanks ++ b :: others) := rfl
  rw [nextItem, hcomma]
  simp only
  rw [if_neg (by decide), if_neg Bool.false_ne_true, if_pos trivial,
    skipBlanks_append hblanks hblank]
  simp only
  rw [if_neg hclosing]

theorem readItems_of_more {limit : Nat} {first : Bool} {bytes after : Bytes} {line : String}
    {outcome : Except JsonFault α} (hreads : Reads item line outcome)
    (hnext : nextItem first bytes = .ok (.more (bytesOf line ++ after))) (hafter : Ends after) :
    readItems item (limit + 1) first bytes = do
      let value ← outcome
      let (values, rest) ← readItems item limit false after
      return (value :: values, rest) := by
  have hitem := hreads.reads [] after rfl hafter
  rw [List.nil_append] at hitem
  rw [readItems, hnext]
  simp only
  rw [hitem]
  cases outcome <;> rfl

theorem mapM_cons_map (outcome : Except JsonFault α) (outcomes : List (Except JsonFault α))
    (rest : Bytes) :
    (do
      let value ← outcome
      let (values, rest) ← (outcomes.mapM id).map (·, rest)
      return (value :: values, rest)) = ((outcome :: outcomes).mapM id).map (·, rest) := by
  rw [List.mapM_cons]
  cases outcome with
  | error fault => rfl
  | ok value => cases outcomes.mapM id <;> rfl

theorem readItems_following {lines : List String} {outcomes : List (Except JsonFault α)}
    (h : List.Forall₂ (Reads item) lines outcomes) {limit : Nat} (hlimit : lines.length < limit) :
    readItems item limit false (following depth "]" lines ++ rest) =
      (outcomes.mapM id).map (·, rest) := by
  induction h generalizing limit with
  | nil =>
    obtain ⟨limit, rfl⟩ : ∃ n, limit = n + 1 := ⟨limit - 1, by omega⟩
    have hnext : nextItem false (following depth "]" [] ++ rest) = .ok (.finished rest) := by
      rw [following, List.append_assoc]
      exact nextItem_finished false (blank_newLine depth)
    rw [readItems, hnext]
    rfl
  | cons hreads hothers ih =>
    rename_i line outcome lines outcomes
    rw [List.length_cons] at hlimit
    obtain ⟨limit, rfl⟩ : ∃ n, limit = n + 1 := ⟨limit - 1, by omega⟩
    obtain ⟨b, others, hbytes, hblank, hclosing⟩ := hreads.head
    have hnext : nextItem false (following depth "]" (line :: lines) ++ rest) =
        .ok (.more (bytesOf line ++ (following depth "]" lines ++ rest))) := by
      rw [following, hbytes, List.cons_append, List.cons_append, List.append_assoc,
        List.cons_append, List.append_assoc]
      exact nextItem_later (blank_newLine (depth + 1)) hblank hclosing
    rw [readItems_of_more hreads hnext (ends_following depth lines rest), ih (by omega)]
    exact mapM_cons_map outcome outcomes rest

theorem expectList_bracket {blanks : Bytes} (hblanks : blanks.all isBlankByte = true) :
    expectList item (blanks ++ (bytesOf "[" ++ rest)) =
      readItems item (rest.length + 1) true rest := by
  show expectList item (blanks ++ byte '[' :: rest) = _
  rw [expectList, skipBlanks_append hblanks rfl]
  rfl

theorem reads_list {lines : List String} {outcomes : List (Except JsonFault α)}
    (h : List.Forall₂ (Reads item) lines outcomes) :
    Reads (expectList item) (block "[" "]" depth lines) (outcomes.mapM id) := by
  cases h with
  | nil =>
    have hbytes := bytesOf_block_nil "[" "]" depth
    refine ⟨⟨_, _, hbytes, rfl, by decide⟩, fun blanks rest hblanks hrest => ?_⟩
    have hnext : nextItem true (bytesOf "]" ++ rest) = .ok (.finished rest) :=
      nextItem_finished true (List.all_nil)
    rw [hbytes, List.append_assoc, expectList_bracket hblanks, readItems, hnext]
    rfl
  | cons hreads hothers =>
    rename_i line outcome lines outcomes
    have hbytes := bytesOf_block_cons "[" "]" depth line lines
    refine ⟨⟨_, _, hbytes, rfl, by decide⟩, fun blanks rest hblanks hrest => ?_⟩
    obtain ⟨b, others, hline, hblank, hclosing⟩ := hreads.head
    have hnext : nextItem true (newLine (depth + 1) ++
          (bytesOf line ++ (following depth "]" lines ++ rest))) =
        .ok (.more (bytesOf line ++ (following depth "]" lines ++ rest))) := by
      rw [hline, List.cons_append]
      exact nextItem_first (blank_newLine (depth + 1)) hblank hclosing
    rw [hbytes, List.append_assoc, List.append_assoc, List.append_assoc,
      expectList_bracket hblanks,
      readItems_of_more hreads hnext (ends_following depth lines rest),
      readItems_following hothers (length_lt_lines depth "]" line lines rest)]
    exact mapM_cons_map outcome outcomes rest

end Items

/-! ## Records -/

/-- A field of a record beside the text of its value and what reading that gives. -/
structure Entry (σ : Type) where
  field : RecordField σ
  text : String
  outcome : Except JsonFault (σ → σ)

namespace Entry

variable {σ : Type}

def line (entry : Entry σ) : String := quoteText entry.field.name ++ ": " ++ entry.text

/-- The text is read by the reader of the field. -/
def Fits (entry : Entry σ) : Prop := Reads entry.field.read entry.text entry.outcome

/-- The changes that the fields make, one after another. -/
def run : List (Entry σ) → σ → Except JsonFault σ
  | [], state => .ok state
  | entry :: entries, state => do
    let put ← entry.outcome
    run entries (put state)

end Entry

section Fields

theorem Entry.name_ne {σ : Type} {entry later : Entry σ} {entries : List (Entry σ)}
    (hnames : ((entry :: entries).map fun next => next.field.name).Nodup) (h : later ∈ entries) :
    later.field.name ≠ entry.field.name := by
  rw [List.map_cons, List.nodup_cons] at hnames
  intro heq
  refine hnames.1 ?_
  rw [← heq]
  exact List.mem_map_of_mem h

variable {σ : Type} {depth : Nat} {rest : Bytes} {fields : List (RecordField σ)}

theorem nextName_finished (first : Bool) {blanks : Bytes}
    (hblanks : blanks.all isBlankByte = true) :
    nextName first (blanks ++ byte '\x7d' :: rest) = .ok (.finished rest) := by
  rw [nextName, skipBlanks_append hblanks rfl]
  rfl

theorem nextName_first {blanks others : Bytes} (hblanks : blanks.all isBlankByte = true) :
    nextName true (blanks ++ byte '"' :: others) = .ok (.more others) := by
  rw [nextName, skipBlanks_append hblanks rfl]
  rfl

theorem nextName_later {blanks others : Bytes} (hblanks : blanks.all isBlankByte = true) :
    nextName false (byte ',' :: (blanks ++ byte '"' :: others)) = .ok (.more others) := by
  have hcomma : skipBlanks (byte ',' :: (blanks ++ byte '"' :: others)) =
      byte ',' :: (blanks ++ byte '"' :: others) := rfl
  rw [nextName, hcomma]
  simp only
  rw [if_neg (by decide), if_neg Bool.false_ne_true, if_pos trivial, skipBlanks_append hblanks rfl]
  rfl

theorem bytesOf_line (entry : Entry σ) :
    bytesOf entry.line = byte '"' :: (inside entry.field.name.toList ++
      byte '"' :: byte ':' :: byte ' ' :: bytesOf entry.text) := by
  rw [Entry.line, bytesOf_append, bytesOf_append, bytesOf_quoteText, List.cons_append,
    List.append_assoc, List.cons_append, List.append_assoc, List.append_assoc]
  rfl

theorem readFields_of_more {entry : Entry σ} {limit : Nat} {first : Bool} {bytes after : Bytes}
    {seen : List String} {state : σ} (hfits : entry.Fits)
    (hfind : fields.find? (fun field => field.name.toList = entry.field.name.toList) =
      some entry.field)
    (hnew : entry.field.name ∉ seen)
    (hnext : nextName first bytes = .ok (.more (inside entry.field.name.toList ++
      byte '"' :: byte ':' :: byte ' ' :: (bytesOf entry.text ++ after))))
    (hafter : Ends after) :
    readFields (readNamed fields) (limit + 1) first (seen, state) bytes =
      (do
        let put ← entry.outcome
        readFields (readNamed fields) limit false (entry.field.name :: seen, put state) after) := by
  have hvalue : entry.field.read (byte ' ' :: (bytesOf entry.text ++ after)) =
      entry.outcome.map (·, after) := hfits.reads [byte ' '] after rfl hafter
  have hcontains : seen.contains entry.field.name = false := by
    rw [List.contains_eq_mem, decide_eq_false hnew]
  have hnamed : readNamed fields (seen, state) entry.field.name.toList
      (byte ':' :: byte ' ' :: (bytesOf entry.text ++ after)) =
        entry.outcome.map fun put => ((entry.field.name :: seen, put state), after) := by
    rw [readNamed, hfind]
    simp only
    rw [hcontains, if_neg Bool.false_ne_true]
    show (entry.field.read (byte ' ' :: (bytesOf entry.text ++ after)) >>= _) = _
    rw [hvalue]
    cases entry.outcome <;> rfl
  rw [readFields, hnext]
  show (readText (inside entry.field.name.toList ++ byte '"' :: _) >>= _) = _
  rw [readText_quoted]
  show (readNamed fields (seen, state) entry.field.name.toList _ >>= _) = _
  rw [hnamed]
  cases entry.outcome <;> rfl

theorem nextName_following (entry : Entry σ) (entries : List (Entry σ)) :
    nextName false (following depth closeBrace ((entry :: entries).map Entry.line) ++ rest) =
      .ok (.more (inside entry.field.name.toList ++ byte '"' :: byte ':' :: byte ' ' ::
        (bytesOf entry.text ++
          (following depth closeBrace (entries.map Entry.line) ++ rest)))) := by
  rw [List.map_cons, following, bytesOf_line]
  simp only [List.cons_append, List.append_assoc]
  exact nextName_later (blank_newLine (depth + 1))

theorem readFields_following {entries : List (Entry σ)} (hfits : ∀ entry ∈ entries, entry.Fits)
    (hfind : ∀ entry ∈ entries, fields.find? (fun field => field.name.toList =
      entry.field.name.toList) = some entry.field)
    (hnames : (entries.map fun entry => entry.field.name).Nodup) {seen : List String}
    (hnew : ∀ entry ∈ entries, entry.field.name ∉ seen) (state : σ) {limit : Nat}
    (hlimit : entries.length < limit) :
    readFields (readNamed fields) limit false (seen, state)
        (following depth closeBrace (entries.map Entry.line) ++ rest) =
      (Entry.run entries state).map fun final =>
        (((entries.map fun entry => entry.field.name).reverse ++ seen, final), rest) := by
  induction entries generalizing seen state limit with
  | nil =>
    obtain ⟨limit, rfl⟩ : ∃ n, limit = n + 1 := ⟨limit - 1, by omega⟩
    have hnext : nextName false (following depth closeBrace [] ++ rest) = .ok (.finished rest) := by
      rw [following, List.append_assoc]
      exact nextName_finished false (blank_newLine depth)
    rw [List.map_nil, readFields, hnext]
    rfl
  | cons entry entries ih =>
    rw [List.length_cons] at hlimit
    obtain ⟨limit, rfl⟩ : ∃ n, limit = n + 1 := ⟨limit - 1, by omega⟩
    have hothers (later : Entry σ) (hlater : later ∈ entries) :
        later.field.name ∉ entry.field.name :: seen := by
      rw [List.mem_cons, not_or]
      exact ⟨Entry.name_ne hnames hlater, hnew later (List.mem_cons_of_mem _ hlater)⟩
    rw [readFields_of_more (hfits entry List.mem_cons_self) (hfind entry List.mem_cons_self)
      (hnew entry List.mem_cons_self) (nextName_following entry entries)
      (ends_following depth _ rest), Entry.run]
    cases entry.outcome with
    | error fault => rfl
    | ok put =>
      refine (ih (fun later hlater => hfits later (List.mem_cons_of_mem _ hlater))
        (fun later hlater => hfind later (List.mem_cons_of_mem _ hlater)) hnames.of_cons hothers
        (put state) (by omega)).trans ?_
      rw [List.map_cons, List.reverse_cons, List.append_assoc]
      rfl

theorem find?_of_nodup {entries : List (Entry σ)} {entry : Entry σ}
    (hnames : (entries.map fun entry => entry.field.name).Nodup) (h : entry ∈ entries) :
    (entries.map fun entry => entry.field).find?
      (fun field => field.name.toList = entry.field.name.toList) = some entry.field := by
  induction entries with
  | nil => cases h
  | cons next entries ih =>
    rcases List.mem_cons.1 h with rfl | hlater
    · rw [List.map_cons, List.find?_cons_of_pos (by simp)]
    · rw [List.map_cons, List.find?_cons_of_neg]
      · exact ih hnames.of_cons hlater
      · rw [decide_eq_true_eq]
        exact fun heq => Entry.name_ne hnames hlater (String.toList_inj.1 heq.symm)

theorem expectRecord_brace {blanks : Bytes} (hblanks : blanks.all isBlankByte = true)
    (initial : σ) :
    expectRecord fields initial (blanks ++ (bytesOf openBrace ++ rest)) =
      (do
        let ((seen, state), rest) ←
          readFields (readNamed fields) (rest.length + 1) true ([], initial) rest
        if fields.all fun field => field.optional || seen.contains field.name then
          return (state, rest)
        else throw .mismatch) := by
  show expectRecord fields initial (blanks ++ byte '\x7b' :: rest) = _
  rw [expectRecord, skipBlanks_append hblanks rfl]
  rfl

theorem all_seen (entries : List (Entry σ)) :
    ((entries.map fun entry => entry.field).all fun field => field.optional ||
      ((entries.map fun entry => entry.field.name).reverse).contains field.name) = true := by
  rw [List.all_eq_true]
  intro field hfield
  obtain ⟨entry, hentry, rfl⟩ := List.mem_map.1 hfield
  have hseen : entry.field.name ∈ (entries.map fun entry => entry.field.name).reverse :=
    List.mem_reverse.2 (List.mem_map_of_mem hentry)
  rw [List.contains_eq_mem, decide_eq_true hseen, Bool.or_true]

theorem readFields_all {entry : Entry σ} {entries : List (Entry σ)}
    (hfits : ∀ next ∈ entry :: entries, next.Fits)
    (hnames : ((entry :: entries).map fun next => next.field.name).Nodup) (initial : σ)
    {limit : Nat}
    (hlimit : entries.length < limit) :
    readFields (readNamed ((entry :: entries).map fun next => next.field)) (limit + 1) true
        ([], initial) (newLine (depth + 1) ++
          (bytesOf entry.line ++ (following depth closeBrace (entries.map Entry.line) ++ rest))) =
      (Entry.run (entry :: entries) initial).map fun final =>
        ((((entry :: entries).map fun next => next.field.name).reverse, final), rest) := by
  have hfind (next : Entry σ) (hnext : next ∈ entry :: entries) := find?_of_nodup hnames hnext
  have hnext : nextName true (newLine (depth + 1) ++
        (bytesOf entry.line ++ (following depth closeBrace (entries.map Entry.line) ++ rest))) =
      .ok (.more (inside entry.field.name.toList ++ byte '"' :: byte ':' :: byte ' ' ::
        (bytesOf entry.text ++
          (following depth closeBrace (entries.map Entry.line) ++ rest)))) := by
    rw [bytesOf_line]
    simp only [List.cons_append, List.append_assoc]
    exact nextName_first (blank_newLine (depth + 1))
  have hothers (later : Entry σ) (hlater : later ∈ entries) :
      later.field.name ∉ [entry.field.name] :=
    fun hmem => Entry.name_ne hnames hlater (List.mem_singleton.1 hmem)
  rw [readFields_of_more (hfits entry List.mem_cons_self) (hfind entry List.mem_cons_self)
    List.not_mem_nil hnext (ends_following depth _ rest), Entry.run]
  cases entry.outcome with
  | error fault => rfl
  | ok put =>
    refine (readFields_following (fun later hlater => hfits later (List.mem_cons_of_mem _ hlater))
      (fun later hlater => hfind later (List.mem_cons_of_mem _ hlater)) hnames.of_cons hothers
      (put initial) hlimit).trans ?_
    rw [List.map_cons, List.reverse_cons]
    rfl

/-- A record whose lines are read is read as what its fields make of the initial state. -/
theorem reads_record {entry : Entry σ} {entries : List (Entry σ)}
    (hfits : ∀ next ∈ entry :: entries, next.Fits)
    (hnames : ((entry :: entries).map fun next => next.field.name).Nodup) (initial : σ) :
    Reads (expectRecord ((entry :: entries).map fun next => next.field) initial)
      (block openBrace closeBrace depth ((entry :: entries).map Entry.line))
      (Entry.run (entry :: entries) initial) := by
  have hbytes :
      bytesOf (block openBrace closeBrace depth ((entry :: entries).map Entry.line)) = _ :=
    bytesOf_block_cons openBrace closeBrace depth entry.line (entries.map Entry.line)
  refine ⟨⟨_, _, hbytes, rfl, by decide⟩, fun blanks rest hblanks hrest => ?_⟩
  have hlimit := length_lt_lines depth closeBrace entry.line (entries.map Entry.line) rest
  rw [List.length_map] at hlimit
  rw [hbytes, List.append_assoc, List.append_assoc, List.append_assoc,
    expectRecord_brace hblanks, readFields_all hfits hnames initial hlimit]
  cases Entry.run (entry :: entries) initial with
  | error fault => rfl
  | ok final => exact if_pos (all_seen (entry :: entries))

end Fields

/-! ## Whole inputs -/

theorem readAll_of_reads {α : Type} {reader : JsonReader α} {text : String}
    {outcome : Except JsonFault α} (h : Reads reader text outcome) :
    readAll reader (bytesOf text) = outcome := by
  have hread := h.reads [] [] rfl ⟨rfl, nofun, rfl⟩
  rw [List.nil_append, List.append_nil] at hread
  rw [readAll, hread]
  cases outcome <;> rfl

end HeapLatency.JsonScan
