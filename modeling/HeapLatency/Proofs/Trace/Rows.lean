import HeapLatency.Proofs.Number.Numerals
import HeapLatency.Proofs.Results
import HeapLatency.Proofs.Text.Fields
import HeapLatency.Trace.Row
import Mathlib.Data.List.Forall2

/-!
# The grammar of rows

Which texts are rows, of which event, and what is said of the others. Four fields decide: the
blanks around them and all that follows the fourth make no difference.
-/

namespace HeapLatency.Row

variable {row field : List Char}

/-- What stands between the commas of a row, without the blanks around it. -/
def Fields (row : List Char) (fields : List (List Char)) : Prop :=
  ∃ pieces, Pieces ',' row pieces ∧ List.Forall₂ Trimmed pieces fields

def IsSize (field : List Char) (size : Nat) : Prop :=
  WrittenNat field size ∧ size ≤ 2 ^ 64 - 1

def IsBlock (field : List Char) (block : ℤ) : Prop :=
  WrittenInt field block ∧ -2 ^ 63 ≤ block ∧ block ≤ 2 ^ 63 - 1

/-- The reason to refuse four fields: that of the first check that fails, after those before it
were passed. -/
inductive FirstFault (size block cycles : List Char) : RowError → Prop where
  | size (hsize : ∀ n, ¬IsSize size n) : FirstFault size block cycles (.size size)
  | block {n : Nat} (hsize : IsSize size n) (hblock : ∀ i, ¬IsBlock block i) :
      FirstFault size block cycles (.block block)
  | cycles {n : Nat} {i : ℤ} {reason : RowError} (hsize : IsSize size n) (hblock : IsBlock block i)
      (hcycles : parseCycles cycles = .error reason) : FirstFault size block cycles reason

/-! ## Cutting a row -/

theorem forall₂_trimmed_iff {pieces fields : List (List Char)} :
    List.Forall₂ Trimmed pieces fields ↔ pieces.map trim = fields := by
  induction pieces generalizing fields with
  | nil => rw [List.forall₂_nil_left_iff, List.map_nil, eq_comm]
  | cons piece pieces ih =>
    cases fields with
    | nil => exact iff_of_false nofun nofun
    | cons field fields =>
      rw [List.forall₂_cons, trimmed_iff, ih, List.map_cons, List.cons.injEq, eq_comm]

theorem fields_iff {fields : List (List Char)} : Fields row fields ↔ Row.fields row = fields := by
  simp only [Fields, pieces_iff, forall₂_trimmed_iff, exists_eq_left]
  rfl

theorem map_trim_padded {pieces padded : List (List Char)} (h : List.Forall₂ Padded pieces padded) :
    padded.map trim = pieces.map trim := by
  induction h with
  | nil => rfl
  | cons hpadded _ ih => rw [List.map_cons, List.map_cons, trim_padded hpadded, ih]

/-! ## Checking a field -/

theorem readNat?_eq_some_iff_isSize {size : Nat} :
    readNat? maxWord field = some size ↔ IsSize field size := readNat?_eq_some_iff

theorem readInt?_eq_some_iff_isBlock {block : ℤ} :
    readInt? minSigned maxSigned field = some block ↔ IsBlock field block := readInt?_eq_some_iff

theorem parseSize_eq_ok_iff {size : UInt64} :
    parseSize field = .ok size ↔ IsSize field size.toNat := by
  rw [← readNat?_eq_some_iff_isSize, parseSize]
  cases hread : readNat? maxWord field with
  | none => exact iff_of_false nofun nofun
  | some n =>
    have hbound : n < 2 ^ 64 := Nat.lt_succ_of_le (readNat?_eq_some_iff_isSize.1 hread).2
    rw [Except.ok.injEq, Option.some.injEq, ← UInt64.toNat_inj, UInt64.toNat_ofNat_of_lt' hbound]

theorem IsSize.exists_parseSize {n : Nat} (h : IsSize field n) :
    ∃ size, parseSize field = .ok size :=
  ⟨.ofNat n, by rw [parseSize, readNat?_eq_some_iff_isSize.2 h]⟩

theorem parseSize_eq_error_iff {reason : RowError} :
    parseSize field = .error reason ↔ reason = .size field ∧ ∀ n, ¬IsSize field n := by
  simp only [← readNat?_eq_some_iff_isSize, parseSize]
  cases readNat? maxWord field <;> simp [eq_comm]

theorem parseBlock_eq_ok_iff {block : ℤ} : parseBlock field = .ok block ↔ IsBlock field block := by
  rw [← readInt?_eq_some_iff_isBlock, parseBlock]
  cases readInt? minSigned maxSigned field <;> simp

theorem parseBlock_eq_error_iff {reason : RowError} :
    parseBlock field = .error reason ↔ reason = .block field ∧ ∀ i, ¬IsBlock field i := by
  simp only [← readInt?_eq_some_iff_isBlock, parseBlock]
  cases readInt? minSigned maxSigned field <;> simp [eq_comm]

/-! ## Checking a row -/

theorem ofText_eq_malloc_iff {text : List Char} :
    Operation.ofText text = .malloc ↔ text = "malloc".toList := by
  rw [Operation.ofText, Operation.name]
  split_ifs with h
  · exact iff_of_true rfl h
  · exact iff_of_false nofun h

theorem eq_iff_eq_malloc_iff {x y : Operation} : x = y ↔ (x = .malloc ↔ y = .malloc) := by
  cases x <;> cases y <;> decide

variable {operation size block cycles : List Char} {rest : List (List Char)}

theorem parse_of_fields (h : Row.fields row = operation :: size :: block :: cycles :: rest) :
    parse row = do
      let size ← parseSize size
      let block ← parseBlock block
      let latency ← parseCycles cycles
      return ⟨.ofText operation, size, block, latency⟩ := by
  rw [parse, h]

theorem parse_of_few (h : (Row.fields row).length < 4) :
    parse row = .error (.tooFewFields (Row.fields row).length) := by
  rw [parse]
  split
  · rename_i heq
    rw [heq] at h
    simp only [List.length_cons] at h
    omega
  · rfl

theorem exists_four {fields : List (List Char)} (h : ¬fields.length < 4) :
    ∃ operation size block cycles rest,
      fields = operation :: size :: block :: cycles :: rest := by
  match fields with
  | operation :: size :: block :: cycles :: rest => exact ⟨_, _, _, _, _, rfl⟩
  | [] | [_] | [_, _] | [_, _, _] => exact absurd (by simp) h

theorem parse_of_fields_eq_ok_iff {event : Event}
    (h : Row.fields row = operation :: size :: block :: cycles :: rest) :
    parse row = .ok event ↔
      IsSize size event.size.toNat ∧ IsBlock block event.block ∧
        parseCycles cycles = .ok event.latency ∧
        (event.operation = .malloc ↔ operation = "malloc".toList) := by
  obtain ⟨kind, bytes, place, latency⟩ := event
  simp only [parse_of_fields h, bind_eq_ok, pure_eq_ok, Event.mk.injEq]
  constructor
  · rintro ⟨_, hsize, _, hblock, _, hcycles, rfl, rfl, rfl, rfl⟩
    exact ⟨parseSize_eq_ok_iff.1 hsize, parseBlock_eq_ok_iff.1 hblock, hcycles,
      ofText_eq_malloc_iff⟩
  · rintro ⟨hsize, hblock, hcycles, hkind⟩
    rw [← ofText_eq_malloc_iff] at hkind
    exact ⟨bytes, parseSize_eq_ok_iff.2 hsize, place, parseBlock_eq_ok_iff.2 hblock, latency,
      hcycles, eq_iff_eq_malloc_iff.2 hkind, rfl, rfl, rfl⟩

theorem parse_of_fields_eq_error_iff {reason : RowError}
    (h : Row.fields row = operation :: size :: block :: cycles :: rest) :
    parse row = .error reason ↔ FirstFault size block cycles reason := by
  simp only [parse_of_fields h, bind_eq_error]
  constructor
  · rintro (hsize | ⟨n, hsize, hblock | ⟨i, hblock, hcycles | ⟨_, _, hpure⟩⟩⟩)
    · obtain ⟨rfl, hnone⟩ := parseSize_eq_error_iff.1 hsize
      exact .size hnone
    · obtain ⟨rfl, hnone⟩ := parseBlock_eq_error_iff.1 hblock
      exact .block (parseSize_eq_ok_iff.1 hsize) hnone
    · exact .cycles (parseSize_eq_ok_iff.1 hsize) (parseBlock_eq_ok_iff.1 hblock) hcycles
    · cases hpure
  · intro hfault
    cases hfault with
    | size hsize => exact .inl (parseSize_eq_error_iff.2 ⟨rfl, hsize⟩)
    | block hsize hblock =>
      obtain ⟨bytes, hbytes⟩ := hsize.exists_parseSize
      exact .inr ⟨bytes, hbytes, .inl (parseBlock_eq_error_iff.2 ⟨rfl, hblock⟩)⟩
    | cycles hsize hblock hcycles =>
      obtain ⟨bytes, hbytes⟩ := hsize.exists_parseSize
      exact .inr ⟨bytes, hbytes, .inr ⟨_, parseBlock_eq_ok_iff.2 hblock, .inl hcycles⟩⟩

theorem parse_of_take {other : List Char} (hfour : 4 ≤ (Row.fields row).length)
    (h : (Row.fields row).take 4 = (Row.fields other).take 4) : parse other = parse row := by
  obtain ⟨operation, size, block, cycles, rest, hrow⟩ := exists_four (Nat.not_lt.2 hfour)
  have hlength : 4 ≤ (Row.fields other).length := by
    have htake := congrArg List.length h
    rw [List.length_take_of_le hfour, List.length_take] at htake
    omega
  obtain ⟨operation', size', block', cycles', rest', hother⟩ := exists_four (Nat.not_lt.2 hlength)
  rw [hrow, hother] at h
  simp only [List.take_succ_cons, List.cons.injEq] at h
  obtain ⟨rfl, rfl, rfl, rfl, -⟩ := h
  rw [parse_of_fields hrow, parse_of_fields hother]

/-! ## The grammar -/

theorem parse_eq_ok_iff {event : Event} :
    parse row = .ok event ↔
      ∃ operation size block cycles rest,
        Fields row (operation :: size :: block :: cycles :: rest) ∧
        IsSize size event.size.toNat ∧ IsBlock block event.block ∧
        parseCycles cycles = .ok event.latency ∧
        (event.operation = .malloc ↔ operation = "malloc".toList) := by
  simp only [fields_iff]
  constructor
  · intro hparse
    by_cases hfew : (Row.fields row).length < 4
    · rw [parse_of_few hfew] at hparse
      cases hparse
    · obtain ⟨operation, size, block, cycles, rest, hfields⟩ := exists_four hfew
      exact ⟨operation, size, block, cycles, rest, hfields,
        (parse_of_fields_eq_ok_iff hfields).1 hparse⟩
  · rintro ⟨operation, size, block, cycles, rest, hfields, hevent⟩
    exact (parse_of_fields_eq_ok_iff hfields).2 hevent

theorem parse_eq_error_iff {reason : RowError} :
    parse row = .error reason ↔
      ∃ fields, Fields row fields ∧
        (fields.length < 4 ∧ reason = .tooFewFields fields.length ∨
          ∃ operation size block cycles rest,
            fields = operation :: size :: block :: cycles :: rest ∧
            FirstFault size block cycles reason) := by
  simp only [fields_iff, exists_eq_left']
  by_cases hfew : (Row.fields row).length < 4
  · rw [parse_of_few hfew, Except.error.injEq, eq_comm]
    refine (and_iff_right hfew).symm.trans (or_iff_left ?_).symm
    rintro ⟨operation, size, block, cycles, rest, hfields, -⟩
    rw [hfields] at hfew
    simp only [List.length_cons] at hfew
    omega
  · obtain ⟨operation, size, block, cycles, rest, hfields⟩ := exists_four hfew
    rw [parse_of_fields_eq_error_iff hfields]
    constructor
    · intro hfault
      exact .inr ⟨operation, size, block, cycles, rest, hfields, hfault⟩
    · rintro (⟨h, -⟩ | ⟨_, _, _, _, _, hfields', hfault⟩)
      · exact absurd h hfew
      · rw [hfields] at hfields'
        cases hfields'
        exact hfault

theorem parse_of_padded {other : List Char} {pieces padded extra : List (List Char)}
    (hrow : Pieces ',' row pieces) (hfour : 4 ≤ pieces.length)
    (hpadded : List.Forall₂ Padded pieces padded) (hother : Pieces ',' other (padded ++ extra)) :
    parse other = parse row := by
  have hfields : Row.fields row = pieces.map trim := by rw [Row.fields, ← pieces_iff.1 hrow]
  have hfields' : Row.fields other = pieces.map trim ++ extra.map trim := by
    rw [Row.fields, ← pieces_iff.1 hother, List.map_append, map_trim_padded hpadded]
  have hlength : 4 ≤ (pieces.map trim).length := by rwa [List.length_map]
  apply parse_of_take
  · rwa [hfields]
  · rw [hfields, hfields', List.take_append_of_le_length hlength]

/-- A row is read when its first four fields are an operation, a size, a block and cycles, and the
event is theirs; otherwise the first check that fails gives the reason. Of four fields or more,
nothing else of the row makes a difference, be it blanks around a field or further fields. -/
theorem row_grammar (row : List Char) :
    (∀ event, parse row = .ok event ↔
      ∃ operation size block cycles rest,
        Fields row (operation :: size :: block :: cycles :: rest) ∧
        IsSize size event.size.toNat ∧ IsBlock block event.block ∧
        parseCycles cycles = .ok event.latency ∧
        (event.operation = .malloc ↔ operation = "malloc".toList)) ∧
    (∀ reason, parse row = .error reason ↔
      ∃ fields, Fields row fields ∧
        (fields.length < 4 ∧ reason = .tooFewFields fields.length ∨
          ∃ operation size block cycles rest,
            fields = operation :: size :: block :: cycles :: rest ∧
            FirstFault size block cycles reason)) ∧
    (∀ other fields fields', Fields row fields → Fields other fields' → 4 ≤ fields.length →
      fields.take 4 = fields'.take 4 → parse other = parse row) ∧
    ∀ other pieces padded extra, Pieces ',' row pieces → 4 ≤ pieces.length →
      List.Forall₂ Padded pieces padded → Pieces ',' other (padded ++ extra) →
      parse other = parse row := by
  refine ⟨fun _ => parse_eq_ok_iff, fun _ => parse_eq_error_iff, ?_, ?_⟩
  · intro other fields fields' hrow hother hfour htake
    rw [fields_iff] at hrow hother
    subst hrow hother
    exact parse_of_take hfour htake
  · intro other pieces padded extra hrow hfour hpadded hother
    exact parse_of_padded hrow hfour hpadded hother

theorem row_grammar_sample :
    parse "free,64,3,120.5".toList = .ok ⟨.free, 64, 3, 120⟩ ∧
    parse " free , 64 ,\t3, 120.5 ,extra".toList = parse "free,64,3,120.5".toList := by
  have hrow : Pieces ',' "free,64,3,120.5".toList
      ["free".toList, "64".toList, "3".toList, "120.5".toList] := pieces_iff.2 (by decide)
  have hother : Pieces ',' " free , 64 ,\t3, 120.5 ,extra".toList
      ([" free ".toList, " 64 ".toList, "\t3".toList, " 120.5 ".toList] ++ ["extra".toList]) :=
    pieces_iff.2 (by decide)
  have hpadded : List.Forall₂ Padded
      ["free".toList, "64".toList, "3".toList, "120.5".toList]
      [" free ".toList, " 64 ".toList, "\t3".toList, " 120.5 ".toList] := by
    have hspace : ∀ c ∈ [' '], isBlank c = true := List.forall_mem_singleton.2 (by decide)
    have htab : ∀ c ∈ ['\t'], isBlank c = true := List.forall_mem_singleton.2 (by decide)
    have hnone : ∀ c ∈ ([] : List Char), isBlank c = true := List.forall_mem_nil _
    simp only [List.forall₂_cons, List.forall₂_nil_left_iff, and_true]
    exact ⟨⟨_, _, hspace, hspace, rfl⟩, ⟨_, _, hspace, hspace, rfl⟩, ⟨_, _, htab, hnone, rfl⟩,
      ⟨_, _, hspace, hspace, rfl⟩⟩
  refine ⟨by decide +kernel, ?_⟩
  exact (row_grammar _).2.2.2 _ _ _ _ hrow (by decide) hpadded hother

end HeapLatency.Row
