import HeapLatency.Text.Split

/-!
# Cutting into lines

The lines of a byte string, described without saying how to find them. The description fits
exactly one list, which is what `linesOf` gives.
-/

namespace HeapLatency

theorem splitOn_of_not_mem {α : Type} [DecidableEq α] {separator : α} {list : List α}
    (h : separator ∉ list) : splitOn separator list = [list] := by
  induction list with
  | nil => rfl
  | cons a rest ih =>
    rw [List.mem_cons, not_or] at h
    rw [splitOn, if_neg (Ne.symm h.1), ih h.2]

theorem splitOn_append_cons {α : Type} [DecidableEq α] {separator : α} {piece : List α}
    (h : separator ∉ piece) (rest : List α) :
    splitOn separator (piece ++ separator :: rest) = piece :: splitOn separator rest := by
  induction piece with
  | nil => rw [List.nil_append, splitOn, if_pos rfl]
  | cons a piece ih =>
    rw [List.mem_cons, not_or] at h
    rw [List.cons_append, splitOn, if_neg (Ne.symm h.1), ih h.2]

theorem not_mem_of_mem_splitOn {α : Type} [DecidableEq α] {separator : α} {piece list : List α}
    (h : piece ∈ splitOn separator list) : separator ∉ piece := by
  induction list generalizing piece with
  | nil =>
    rw [splitOn, List.mem_singleton] at h
    rw [h]
    exact List.not_mem_nil
  | cons a rest ih =>
    rw [splitOn] at h
    split at h
    · rcases List.mem_cons.1 h with rfl | h
      · exact List.not_mem_nil
      · exact ih h
    · rename_i ha
      cases hrest : splitOn separator rest with
      | nil => exact absurd hrest (splitOn_ne_nil separator rest)
      | cons first others =>
        rw [hrest] at h ih
        rcases List.mem_cons.1 h with rfl | h
        · rw [List.mem_cons, not_or]
          exact ⟨Ne.symm ha, ih List.mem_cons_self⟩
        · exact ih (List.mem_cons_of_mem first h)

namespace Lines

/-- `lines` are the lines of a byte string. A line goes up to the next line feed, and a carriage
return right before that is not part of it; bytes after the last line feed are one more line,
whatever they end in. -/
inductive Cut : Bytes → List Bytes → Prop where
  | none : Cut [] []
  | unended {line : Bytes} (nonempty : line ≠ []) (inside : lineFeed ∉ line) : Cut line [line]
  | ended {line rest : Bytes} {lines : List Bytes} (inside : lineFeed ∉ line)
      (bare : line.getLast? ≠ some carriageReturn) (others : Cut rest lines) :
      Cut (line ++ lineFeed :: rest) (line :: lines)
  | returned {line rest : Bytes} {lines : List Bytes} (inside : lineFeed ∉ line)
      (others : Cut rest lines) :
      Cut (line ++ carriageReturn :: lineFeed :: rest) (line :: lines)

theorem dropReturn_of_bare {line : Bytes} (h : line.getLast? ≠ some carriageReturn) :
    dropReturn line = line := by
  rw [dropReturn, if_neg h]

theorem dropReturn_append_return (line : Bytes) :
    dropReturn (line ++ [carriageReturn]) = line := by
  rw [dropReturn, if_pos List.getLast?_concat, List.dropLast_concat]

theorem ofPieces_cons {line : Bytes} {pieces : List Bytes} (h : pieces ≠ []) :
    ofPieces (line :: pieces) = dropReturn line :: ofPieces pieces := by
  cases pieces with
  | nil => exact absurd rfl h
  | cons next pieces => rfl

theorem linesOf_unended {line : Bytes} (nonempty : line ≠ []) (inside : lineFeed ∉ line) :
    linesOf line = [line] := by
  rw [linesOf, splitOn_of_not_mem inside, ofPieces, if_neg]
  simpa using nonempty

theorem linesOf_append_cons {line : Bytes} (inside : lineFeed ∉ line) (rest : Bytes) :
    linesOf (line ++ lineFeed :: rest) = dropReturn line :: linesOf rest := by
  rw [linesOf, splitOn_append_cons inside, ofPieces_cons (splitOn_ne_nil _ _), linesOf]

theorem linesOf_append_return {line : Bytes} (inside : lineFeed ∉ line) (rest : Bytes) :
    linesOf (line ++ carriageReturn :: lineFeed :: rest) = line :: linesOf rest := by
  have hsplit : line ++ carriageReturn :: lineFeed :: rest =
      (line ++ [carriageReturn]) ++ lineFeed :: rest := by simp
  have hinside : lineFeed ∉ line ++ [carriageReturn] := by
    rw [List.mem_append, not_or]
    exact ⟨inside, by decide⟩
  rw [hsplit, linesOf_append_cons hinside, dropReturn_append_return]

theorem eq_linesOf_of_cut {bytes : Bytes} {lines : List Bytes} (h : Cut bytes lines) :
    lines = linesOf bytes := by
  induction h with
  | none => rfl
  | unended nonempty inside => rw [linesOf_unended nonempty inside]
  | ended inside bare _ ih => rw [linesOf_append_cons inside, dropReturn_of_bare bare, ih]
  | returned inside _ ih => rw [linesOf_append_return inside, ih]

/-- A first line that ends in a line feed can be taken off in one of two ways. -/
theorem cut_cons {line rest : Bytes} {lines : List Bytes} (inside : lineFeed ∉ line)
    (others : Cut rest lines) : Cut (line ++ lineFeed :: rest) (dropReturn line :: lines) := by
  by_cases h : line.getLast? = some carriageReturn
  · obtain ⟨body, rfl⟩ := List.getLast?_eq_some_iff.1 h
    rw [dropReturn_append_return, List.append_assoc]
    rw [List.mem_append, not_or] at inside
    exact .returned inside.1 others
  · rw [dropReturn_of_bare h]
    exact .ended inside h others

theorem cut_linesOf (bytes : Bytes) : Cut bytes (linesOf bytes) := by
  -- the rest after the first line feed is shorter, but no tail of the bytes as they are built
  induction hlength : bytes.length using Nat.strongRecOn generalizing bytes with
  | ind length ih =>
    by_cases hfeed : lineFeed ∈ bytes
    · obtain ⟨line, rest, rfl, inside⟩ := List.eq_append_cons_of_mem hfeed
      rw [linesOf_append_cons inside]
      refine cut_cons inside (ih rest.length ?_ rest rfl)
      rw [← hlength, List.length_append, List.length_cons]
      omega
    · cases bytes with
      | nil => exact .none
      | cons b bytes =>
        rw [linesOf_unended (List.cons_ne_nil b bytes) hfeed]
        exact .unended (List.cons_ne_nil b bytes) hfeed

theorem cut_iff {bytes : Bytes} {lines : List Bytes} :
    Cut bytes lines ↔ lines = linesOf bytes := by
  constructor
  · exact eq_linesOf_of_cut
  · rintro rfl
    exact cut_linesOf bytes

end Lines

end HeapLatency
