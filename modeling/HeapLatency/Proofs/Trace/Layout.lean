import HeapLatency.Proofs.Results
import HeapLatency.Proofs.Text.Layout
import HeapLatency.Trace.Parse
import Mathlib.Algebra.BigOperators.Group.Finset.Basic

/-!
# Layout of a trace

What a trace says does not depend on how its lines end, nor on blank lines after the preamble.
Of a line nothing counts but its text without the blanks at both ends, and blank lines only move
the lines after them.
-/

namespace HeapLatency

/-- The error with another number for its line. -/
def TraceError.renumber (number : Nat → Nat) : TraceError → TraceError
  | .malformed line row reason => .malformed (number line) row reason
  | fault => fault

namespace Trace

/-! ## Lines that show the same -/

/-- What a trace reads of a line. -/
def shown (line : Bytes) : Option (List Char) := (Utf8.decode? line).map trim

theorem shown_encode (text : List Char) : shown (Utf8.encode text) = some (trim text) := by
  rw [shown, Utf8.decode?_encode, Option.map_some]

theorem shown_dropReturn_encode (text : List Char) :
    shown (Lines.dropReturn (Utf8.encode text)) = some (trim text) := by
  obtain ⟨kept, hkept, htrim⟩ := exists_dropReturn_encode text
  rw [hkept, shown_encode, htrim]

theorem isNone_decode? (line : Bytes) : (Utf8.decode? line).isNone = (shown line).isNone := by
  rw [shown, Option.isNone_map]

theorem rowsFrom_cons (number : Nat) (line : Bytes) (rest : List Bytes) :
    rowsFrom number (line :: rest) =
      match shown line with
      | none => .error (.unreadable .invalidUtf8)
      | some row =>
        if row.isEmpty then rowsFrom (number + 1) rest
        else
          match Row.parse row with
          | .error reason => .error (.malformed number row reason)
          | .ok event => (rowsFrom (number + 1) rest).map ((row, event) :: ·) := by
  rw [rowsFrom, shown]
  cases Utf8.decode? line <;> rfl

theorem rowsFrom_cons_congr {number : Nat} {line other : Bytes} {rest others : List Bytes}
    (h : shown line = shown other)
    (hrest : rowsFrom (number + 1) rest = rowsFrom (number + 1) others) :
    rowsFrom number (line :: rest) = rowsFrom number (other :: others) := by
  rw [rowsFrom_cons, rowsFrom_cons, h, hrest]

theorem rowsFrom_congr {lines others : List Bytes} (h : lines.map shown = others.map shown)
    (number : Nat) : rowsFrom number lines = rowsFrom number others := by
  induction lines generalizing number others with
  | nil => rw [List.map_eq_nil_iff.1 h.symm]
  | cons line lines ih =>
    obtain ⟨other, others, rfl, hother, hothers⟩ := List.map_eq_cons_iff.1 h.symm
    exact rowsFrom_cons_congr hother.symm (ih hothers.symm (number + 1))

theorem any_isNone_decode? (lines : List Bytes) :
    (lines.any fun line => (Utf8.decode? line).isNone) = (lines.map shown).any Option.isNone := by
  rw [List.any_map]
  exact congrArg lines.any (funext isNone_decode?)

theorem parse_congr {bytes others : Bytes}
    (h : (linesOf bytes).map shown = (linesOf others).map shown) : parse bytes = parse others := by
  have hlength : (linesOf bytes).length = (linesOf others).length := by
    rw [← List.length_map shown, h, List.length_map]
  have hrows : rowsFrom (preamble + 1) ((linesOf bytes).drop preamble) =
      rowsFrom (preamble + 1) ((linesOf others).drop preamble) := by
    apply rowsFrom_congr
    rw [List.map_drop, h, List.map_drop]
  simp only [parse, any_isNone_decode?, List.map_take, h, hrows, hlength]

/-! ## Line endings -/

theorem map_shown_withReturns {pieces : List (List Char)} (h : ∀ piece ∈ pieces, '\n' ∉ piece) :
    (linesOf (Utf8.encode (withReturns (joinLines pieces)))).map shown =
      (linesOf (Utf8.encode (joinLines pieces))).map shown := by
  induction pieces with
  | nil => rfl
  | cons line rest ih =>
    obtain ⟨hline, hrest⟩ := List.forall_mem_cons.1 h
    by_cases hlast : rest = []
    · subst hlast
      rw [joinLines, List.intercalate_singleton, withReturns_of_not_mem hline]
    · rw [linesOf_joinLines_cons hline hlast, joinLines_cons line hlast,
        withReturns_append_cons hline, linesOf_append_returned hline, List.map_cons, List.map_cons,
        shown_encode, shown_dropReturn_encode, ih hrest]

/-! ## Blank lines -/

/-- A line of a text with nothing but blanks on it. -/
def IsBlankLine (line : List Char) : Prop := ∀ c ∈ line, isBlank c = true ∧ c ≠ '\n'

/-- Number of the elements put in before element `number`. -/
def addedBefore {α : Type} (gap : Nat → List α) (number : Nat) : Nat :=
  ∑ earlier ∈ Finset.range (number + 1), (gap earlier).length

variable {gap : Nat → List (List Char)} {pieces : List (List Char)}

theorem trim_of_isBlankLine {line : List Char} (h : IsBlankLine line) : trim line = [] := by
  have hpadded : Padded [] line :=
    ⟨line, [], fun c hc => (h c hc).1, List.forall_mem_nil _, by simp⟩
  exact trim_padded hpadded

theorem rowsFrom_append_blank {blanks : List (List Char)} (h : ∀ line ∈ blanks, IsBlankLine line)
    (number : Nat) (lines : List Bytes) :
    rowsFrom number (blanks.map Utf8.encode ++ lines) =
      rowsFrom (number + blanks.length) lines := by
  induction blanks generalizing number with
  | nil => rfl
  | cons line blanks ih =>
    obtain ⟨hline, hblanks⟩ := List.forall_mem_cons.1 h
    rw [List.map_cons, List.cons_append, rowsFrom_cons, shown_encode, trim_of_isBlankLine hline]
    simp only [List.isEmpty_nil, if_true]
    rw [ih hblanks, List.length_cons, Nat.add_right_comm, Nat.add_assoc]

/-- Blank lines between the lines of a trace give no rows, and move the others on. -/
theorem rowsFrom_interleave (hgap : ∀ number, ∀ line ∈ gap number, IsBlankLine line)
    (number before : Nat) (hbefore : before + (gap number).length = addedBefore gap number) :
    rowsFrom (number + before) ((interleave gap number pieces).map Utf8.encode) =
      (rowsFrom number (pieces.map Utf8.encode)).mapError
        (.renumber fun line => line + addedBefore gap line) := by
  induction pieces generalizing number before with
  | nil =>
    have hblank := rowsFrom_append_blank (hgap number) (number + before) []
    rw [List.append_nil] at hblank
    rw [interleave, hblank]
    rfl
  | cons line pieces ih =>
    have hnext := ih (number + 1) (addedBefore gap number) (Finset.sum_range_succ _ _).symm
    rw [interleave, List.map_append, rowsFrom_append_blank (hgap number), Nat.add_assoc, hbefore,
      List.map_cons, List.map_cons, rowsFrom_cons, rowsFrom_cons, shown_encode]
    rw [Nat.add_right_comm] at hnext
    simp only [hnext]
    by_cases hblank : (trim line).isEmpty
    · simp only [hblank, if_true]
    · simp only [hblank]
      cases Row.parse (trim line) with
      | error reason => rfl
      | ok event => exact (mapError_map _ _ _).symm

/-! ## Whole traces -/

/-- The trace of rows with their events. -/
def ofRows (rows : List (List Char × Event)) : Trace where
  events := rows.map (·.2)
  unrecognized := rows.countP fun row => !Row.isRecognized row.1

/-- Of the pieces of a text between line feeds, those after the second are its rows. An empty last
piece is no line, but makes no difference. -/
theorem rowsFrom_linesOf (h : ∀ piece ∈ pieces, '\n' ∉ piece) (number : Nat) :
    rowsFrom number (linesOf (Utf8.encode (joinLines pieces))) =
      rowsFrom number (pieces.map Utf8.encode) := by
  induction pieces generalizing number with
  | nil => rfl
  | cons line rest ih =>
    obtain ⟨hline, hrest⟩ := List.forall_mem_cons.1 h
    by_cases hlast : rest = []
    · subst hlast
      rw [joinLines, List.intercalate_singleton, linesOf_encode_of_not_mem hline]
      split_ifs with hnone
      · subst hnone
        rfl
      · rfl
    · rw [linesOf_joinLines_cons hline hlast, List.map_cons]
      refine rowsFrom_cons_congr ?_ (ih hrest (number + 1))
      rw [shown_dropReturn_encode, shown_encode]

theorem exists_preamble_lines {first second : List Char} (hfirst : '\n' ∉ first)
    (hsecond : '\n' ∉ second) (h : second ≠ [] ∨ pieces ≠ []) :
    ∃ a b, shown a = some (trim first) ∧ shown b = some (trim second) ∧
      linesOf (Utf8.encode (joinLines (first :: second :: pieces))) =
        a :: b :: linesOf (Utf8.encode (joinLines pieces)) := by
  rw [linesOf_joinLines_cons hfirst (List.cons_ne_nil second pieces)]
  refine ⟨Lines.dropReturn (Utf8.encode first), ?_⟩
  by_cases hlast : pieces = []
  · subst hlast
    refine ⟨_, shown_dropReturn_encode first, shown_encode second, ?_⟩
    rw [joinLines, List.intercalate_singleton, linesOf_encode_of_not_mem hsecond,
      if_neg (h.resolve_right (fun hnone => hnone rfl))]
    rfl
  · refine ⟨_, shown_dropReturn_encode first, shown_dropReturn_encode second, ?_⟩
    rw [linesOf_joinLines_cons hsecond hlast]

theorem exists_pieces_of_two_lines {text : List Char}
    (h : 2 ≤ (linesOf (Utf8.encode text)).length) :
    ∃ first second rest, splitOn '\n' text = first :: second :: rest ∧
      (second ≠ [] ∨ rest ≠ []) := by
  have hinside : ∀ piece ∈ splitOn '\n' text, '\n' ∉ piece := fun _ => not_mem_of_mem_splitOn
  rw [← joinLines_splitOn text] at h
  cases hpieces : splitOn '\n' text with
  | nil => exact absurd hpieces (splitOn_ne_nil '\n' text)
  | cons first pieces =>
    rw [hpieces] at h hinside
    obtain ⟨hfirst, hothers⟩ := List.forall_mem_cons.1 hinside
    cases pieces with
    | nil =>
      rw [joinLines, List.intercalate_singleton, linesOf_encode_of_not_mem hfirst] at h
      split_ifs at h <;> simp at h
    | cons second rest =>
      refine ⟨first, second, rest, rfl, ?_⟩
      by_contra! hnone
      obtain ⟨rfl, rfl⟩ := hnone
      rw [linesOf_joinLines_cons hfirst (List.cons_ne_nil _ _)] at h
      exact absurd h (Nat.not_le.2 Nat.one_lt_two)

theorem parse_joinLines {first second : List Char}
    (hinside : ∀ piece ∈ first :: second :: pieces, '\n' ∉ piece)
    (h : second ≠ [] ∨ pieces ≠ []) :
    parse (Utf8.encode (joinLines (first :: second :: pieces))) =
      (rowsFrom 3 (pieces.map Utf8.encode)).map ofRows := by
  obtain ⟨hfirst, hothers⟩ := List.forall_mem_cons.1 hinside
  obtain ⟨hsecond, hpieces⟩ := List.forall_mem_cons.1 hothers
  obtain ⟨a, b, ha, hb, hlines⟩ := exists_preamble_lines hfirst hsecond h
  have hlength (lines : List Bytes) : ¬(a :: b :: lines).length < preamble := by
    rw [List.length_cons, List.length_cons, preamble]
    omega
  simp only [parse, hlines, any_isNone_decode?, hlength, if_false]
  simp only [preamble, List.take_succ_cons, List.take_zero, List.map_cons, List.map_nil, ha, hb,
    List.any_cons, List.any_nil, Option.isNone_some, Bool.or_self, Bool.false_eq_true, if_false,
    List.drop_succ_cons, List.drop_zero]
  rw [rowsFrom_linesOf hpieces]
  cases rowsFrom 3 (pieces.map Utf8.encode) <;> rfl

/-- Blanks after the last line feed are one more line of no account, or belong to the last line. -/
theorem parse_joinLines_append {first second tail : List Char}
    (hinside : ∀ piece ∈ first :: second :: pieces, '\n' ∉ piece)
    (h : second ≠ [] ∨ pieces ≠ []) (htail : IsBlankLine tail) :
    parse (Utf8.encode (joinLines (first :: second :: pieces) ++ tail)) =
      (rowsFrom 3 (pieces.map Utf8.encode)).map ofRows := by
  have hfeed : '\n' ∉ tail := fun hmem => (htail '\n' hmem).2 rfl
  have hlonger {last : List Char} (hlast : '\n' ∉ last) : '\n' ∉ last ++ tail :=
    fun hmem => (List.mem_append.1 hmem).elim hlast hfeed
  obtain ⟨hfirst, hothers⟩ := List.forall_mem_cons.1 hinside
  obtain ⟨hsecond, hpieces⟩ := List.forall_mem_cons.1 hothers
  obtain rfl | ⟨init, last, rfl⟩ := List.eq_nil_or_concat pieces
  · have hjoined := joinLines_concat_append [first] second tail
    rw [List.singleton_append, List.singleton_append] at hjoined
    rw [← hjoined, parse_joinLines]
    · exact List.forall_mem_cons.2 ⟨hfirst, List.forall_mem_singleton.2 (hlonger hsecond)⟩
    · exact Or.inl (List.append_ne_nil_of_left_ne_nil (h.resolve_right fun hnone => hnone rfl) tail)
  · rw [List.concat_eq_append] at hpieces ⊢
    obtain ⟨hinit, hlast⟩ := List.forall_mem_append.1 hpieces
    have hjoined := joinLines_concat_append (first :: second :: init) last tail
    simp only [List.cons_append] at hjoined
    have hshown : ((init ++ [last ++ tail]).map Utf8.encode).map shown =
        ((init ++ [last]).map Utf8.encode).map shown := by
      have hpadded : Padded last (last ++ tail) :=
        ⟨[], tail, List.forall_mem_nil _, fun c hc => (htail c hc).1, rfl⟩
      simp only [List.map_append, List.map_cons, List.map_nil, shown_encode, trim_padded hpadded]
    rw [← hjoined, parse_joinLines _ (Or.inr (List.concat_ne_nil _ _)), rowsFrom_congr hshown]
    refine List.forall_mem_cons.2 ⟨hfirst, List.forall_mem_cons.2 ⟨hsecond, ?_⟩⟩
    refine List.forall_mem_append.2 ⟨hinit, List.forall_mem_singleton.2 (hlonger ?_)⟩
    exact hlast last List.mem_cons_self

/-- How the lines of a trace end makes no difference, and blank lines after the preamble only move
the lines after them: a trace stays what it is, and an error stays the same but for the number of
its line, to which the lines put in before it are added. The last one put in, `tail`, has no end. -/
theorem parse_laid_out (text : List Char) :
    parse (Utf8.encode (withReturns text)) = parse (Utf8.encode text) ∧
    ∀ (gap : Nat → List (List Char)) (tail : List Char),
      2 ≤ (linesOf (Utf8.encode text)).length → (∀ number ≤ 2, gap number = []) →
      (∀ number, ∀ line ∈ gap number, IsBlankLine line) → IsBlankLine tail →
      parse (Utf8.encode (withLines gap text ++ tail)) =
        (parse (Utf8.encode text)).mapError
          (.renumber fun number => number + addedBefore gap number) := by
  have hinside : ∀ piece ∈ splitOn '\n' text, '\n' ∉ piece := fun _ => not_mem_of_mem_splitOn
  constructor
  · apply parse_congr
    rw [← joinLines_splitOn text]
    exact map_shown_withReturns hinside
  · intro gap tail htwo hnone hblank htail
    obtain ⟨first, second, rest, hpieces, hline⟩ := exists_pieces_of_two_lines htwo
    have hrest : parse (Utf8.encode text) = (rowsFrom 3 (rest.map Utf8.encode)).map ofRows := by
      rw [← joinLines_splitOn text, hpieces]
      exact parse_joinLines (hpieces ▸ hinside) hline
    have hlaid : interleave gap 1 (splitOn '\n' text) =
        first :: second :: interleave gap 3 rest := by
      rw [hpieces, interleave, interleave, hnone 1 (by decide), hnone 2 (by decide)]
      rfl
    have hadded : 0 + (gap 3).length = addedBefore gap 3 := by
      simp [addedBefore, Finset.sum_range_succ, hnone]
    rw [withLines, hlaid, parse_joinLines_append _ (hline.imp_right interleave_ne_nil) htail, hrest,
      mapError_map]
    · exact congrArg (Except.map ofRows) (rowsFrom_interleave hblank 3 0 hadded)
    · rw [← hlaid]
      intro piece hpiece
      obtain hkept | ⟨number, hadded⟩ := mem_interleave hpiece
      · exact hinside piece hkept
      · exact fun hfeed => (hblank number piece hadded '\n' hfeed).2 rfl

/-- A malformed row moves on by the two blank lines before it. -/
theorem parse_laid_out_sample :
    let text := "#\n#\nmalloc,64,1,5\nfree,64,x,5".toList
    let gap := fun number => if number = 4 then [[' '], ['\t', '\r']] else []
    parse (Utf8.encode text) = .error (.malformed 4 "free,64,x,5".toList (.block ['x'])) ∧
    parse (Utf8.encode (withLines gap text ++ [' '])) =
      .error (.malformed 6 "free,64,x,5".toList (.block ['x'])) := by
  intro text gap
  have hparse : parse (Utf8.encode text) =
      .error (.malformed 4 "free,64,x,5".toList (.block ['x'])) := by
    decide +kernel
  have hblank : ∀ number, ∀ line ∈ gap number, IsBlankLine line := by
    intro number
    by_cases hfour : number = 4
    · simp only [gap, if_pos hfour, IsBlankLine, List.forall_mem_cons]
      refine ⟨⟨by decide, ?_⟩, ⟨by decide, by decide, ?_⟩, ?_⟩ <;> exact List.forall_mem_nil _
    · simp only [gap, if_neg hfour]
      exact List.forall_mem_nil _
  have htail : IsBlankLine [' '] := List.forall_mem_singleton.2 (by decide)
  refine ⟨hparse, ?_⟩
  rw [(parse_laid_out text).2 gap [' '] (by decide +kernel) (by decide) hblank htail, hparse]
  rfl

end Trace

end HeapLatency
