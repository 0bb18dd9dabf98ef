import HeapLatency.Proofs.Text.Encoding
import HeapLatency.Proofs.Text.Fields

/-!
# Layout of a text

Two ways of laying a text out anew: ending its lines with a carriage return as well, and putting
further lines between them. What becomes of the lines is told for the pieces between line feeds,
of which the last may be empty and then is no line.
-/

namespace HeapLatency

/-- The text with a carriage return put before every line feed. -/
def withReturns (text : List Char) : List Char :=
  text.flatMap fun c => if c = '\n' then ['\r', '\n'] else [c]

/-- A list with further elements put in; `gap n` is put before element `n`, and the first one
left over after the last element. `number` is the number of the first element. -/
def interleave {α : Type} (gap : Nat → List α) (number : Nat) : List α → List α
  | [] => gap number
  | a :: rest => gap number ++ a :: interleave gap (number + 1) rest

def joinLines (pieces : List (List Char)) : List Char := ['\n'].intercalate pieces

/-- The text with the lines `gap n` put before line `n`, counted from one. -/
def withLines (gap : Nat → List (List Char)) (text : List Char) : List Char :=
  joinLines (interleave gap 1 (splitOn '\n' text))

section Interleaved

variable {α : Type} {gap : Nat → List α} {number : Nat} {list : List α}

theorem mem_interleave {a : α} (h : a ∈ interleave gap number list) :
    a ∈ list ∨ ∃ n, a ∈ gap n := by
  induction list generalizing number with
  | nil => exact Or.inr ⟨number, h⟩
  | cons b rest ih =>
    rw [interleave, List.mem_append, List.mem_cons] at h
    rcases h with hgap | rfl | hrest
    · exact Or.inr ⟨number, hgap⟩
    · exact Or.inl List.mem_cons_self
    · exact (ih hrest).imp_left (List.mem_cons_of_mem b)

theorem interleave_ne_nil (h : list ≠ []) : interleave gap number list ≠ [] := by
  cases list with
  | nil => exact absurd rfl h
  | cons a rest => exact List.append_ne_nil_of_right_ne_nil _ (List.cons_ne_nil a _)

end Interleaved

/-! ## Pieces -/

variable {line : List Char} {pieces : List (List Char)}

theorem joinLines_splitOn (text : List Char) : joinLines (splitOn '\n' text) = text :=
  (pieces_iff.2 rfl).joined

theorem joinLines_cons (line : List Char) (h : pieces ≠ []) :
    joinLines (line :: pieces) = line ++ '\n' :: joinLines pieces := by
  cases pieces with
  | nil => exact absurd rfl h
  | cons next pieces =>
    rw [joinLines, List.intercalate_cons_cons, List.append_assoc, List.singleton_append,
      ← joinLines]

theorem joinLines_concat_append (pieces : List (List Char)) (last tail : List Char) :
    joinLines (pieces ++ [last ++ tail]) = joinLines (pieces ++ [last]) ++ tail := by
  induction pieces with
  | nil => rw [List.nil_append, List.nil_append, joinLines, joinLines, List.intercalate_singleton,
      List.intercalate_singleton]
  | cons line pieces ih =>
    have hsome (other : List Char) : pieces ++ [other] ≠ [] := List.concat_ne_nil other pieces
    rw [List.cons_append, List.cons_append, joinLines_cons line (hsome _),
      joinLines_cons line (hsome _), ih, List.append_assoc, List.cons_append]

theorem withReturns_of_not_mem (h : '\n' ∉ line) : withReturns line = line := by
  induction line with
  | nil => rfl
  | cons c line ih =>
    rw [List.mem_cons, not_or] at h
    rw [withReturns, List.flatMap_cons, if_neg (Ne.symm h.1), ← withReturns, ih h.2,
      List.singleton_append]

theorem withReturns_append_cons (h : '\n' ∉ line) (rest : List Char) :
    withReturns (line ++ '\n' :: rest) = line ++ '\r' :: '\n' :: withReturns rest := by
  rw [withReturns, List.flatMap_append, List.flatMap_cons, ← withReturns, ← withReturns,
    withReturns_of_not_mem h]
  rfl

/-! ## Bytes of the lines -/

theorem lineFeed_not_mem_encode (h : '\n' ∉ line) : Lines.lineFeed ∉ Utf8.encode line :=
  fun hmem => h (Utf8.mem_of_mem_encode hmem (by decide))

theorem encode_append_feed (line rest : List Char) :
    Utf8.encode (line ++ '\n' :: rest) =
      Utf8.encode line ++ Lines.lineFeed :: Utf8.encode rest := by
  rw [Utf8.encode_append]
  rfl

/-- What is dropped at the end of a line is a character of its text. -/
theorem exists_dropReturn_encode (line : List Char) :
    ∃ kept, Lines.dropReturn (Utf8.encode line) = Utf8.encode kept ∧ trim kept = trim line := by
  by_cases hreturn : (Utf8.encode line).getLast? = some Lines.carriageReturn
  · obtain rfl | ⟨kept, c, rfl⟩ := List.eq_nil_or_concat line
    · cases hreturn
    have hchar : Utf8.encode [c] = String.utf8EncodeChar c := List.flatMap_singleton _ _
    rw [List.concat_eq_append, Utf8.encode_append, hchar,
      List.getLast?_append_of_ne_nil _ String.utf8EncodeChar_ne_nil] at hreturn
    have hcode := Utf8.toNat_of_mem_utf8EncodeChar (List.mem_of_getLast? hreturn) (by decide)
    obtain rfl : c = '\r' := Char.toNat_inj.1 hcode
    refine ⟨kept, ?_, ?_⟩
    · rw [List.concat_eq_append, Utf8.encode_append]
      exact Lines.dropReturn_append_return _
    · rw [List.concat_eq_append]
      refine (trim_padded ⟨[], ['\r'], List.forall_mem_nil _, ?_, rfl⟩).symm
      exact List.forall_mem_singleton.2 (by decide)
  · exact ⟨line, Lines.dropReturn_of_bare hreturn, rfl⟩

theorem linesOf_joinLines_cons (h : '\n' ∉ line) (hpieces : pieces ≠ []) :
    linesOf (Utf8.encode (joinLines (line :: pieces))) =
      Lines.dropReturn (Utf8.encode line) :: linesOf (Utf8.encode (joinLines pieces)) := by
  rw [joinLines_cons line hpieces, encode_append_feed,
    Lines.linesOf_append_cons (lineFeed_not_mem_encode h)]

theorem linesOf_append_returned (h : '\n' ∉ line) (rest : List Char) :
    linesOf (Utf8.encode (line ++ '\r' :: '\n' :: rest)) =
      Utf8.encode line :: linesOf (Utf8.encode rest) := by
  rw [Utf8.encode_append]
  exact Lines.linesOf_append_return (lineFeed_not_mem_encode h) (Utf8.encode rest)

theorem linesOf_encode_of_not_mem (h : '\n' ∉ line) :
    linesOf (Utf8.encode line) = if line = [] then [] else [Utf8.encode line] := by
  cases line with
  | nil => rfl
  | cons c line =>
    refine Lines.linesOf_unended ?_ (lineFeed_not_mem_encode h)
    rw [Utf8.encode_cons]
    exact List.append_ne_nil_of_left_ne_nil String.utf8EncodeChar_ne_nil _

end HeapLatency
