import HeapLatency.Proofs.Text.Lines
import HeapLatency.Text.Split
import Mathlib.Data.List.DropRight

/-!
# Pieces and fields

What cutting at a separator and dropping the blanks around a text give, described without saying
how it is done. Each description fits exactly one result.
-/

namespace HeapLatency

/-! ## Pieces -/

section Pieces

variable {α : Type} [DecidableEq α] {separator : α} {list : List α} {pieces : List (List α)}

/-- `pieces` are what stands between the separators of a list. -/
structure Pieces (separator : α) (list : List α) (pieces : List (List α)) : Prop where
  nonempty : pieces ≠ []
  inside : ∀ piece ∈ pieces, separator ∉ piece
  joined : [separator].intercalate pieces = list

theorem splitOn_eq (separator : α) (list : List α) :
    splitOn separator list = list.splitOn separator := by
  induction list with
  | nil => rw [splitOn, List.splitOn_nil]
  | cons a rest ih =>
    rw [splitOn, ih, List.splitOn_cons_eq_if_modifyHead]
    by_cases h : a = separator
    · rw [if_pos h, if_pos (beq_iff_eq.2 h)]
    · rw [if_neg h, if_neg (beq_eq_false_iff_ne.2 h ▸ Bool.false_ne_true)]
      cases hrest : rest.splitOn separator with
      | nil => exact absurd hrest (List.splitOn_ne_nil separator rest)
      | cons piece pieces => rfl

theorem pieces_iff : Pieces separator list pieces ↔ pieces = splitOn separator list := by
  constructor
  · rintro ⟨hnonempty, hinside, rfl⟩
    rw [splitOn_eq, List.splitOn_intercalate separator hinside hnonempty]
  · rintro rfl
    refine ⟨splitOn_ne_nil separator list, fun piece => not_mem_of_mem_splitOn, ?_⟩
    rw [splitOn_eq, List.intercalate_splitOn]

end Pieces

/-! ## Blanks around a text -/

variable {text core before after : List Char}

/-- `text` is `core` with blanks around it. -/
def Padded (core text : List Char) : Prop :=
  ∃ before after : List Char, (∀ c ∈ before, isBlank c = true) ∧
    (∀ c ∈ after, isBlank c = true) ∧ text = before ++ core ++ after

/-- `core` is all of a text but the blanks around it. -/
structure Trimmed (text core : List Char) : Prop where
  padded : Padded core text
  first : ∀ h : core ≠ [], isBlank (core.head h) = false
  last : ∀ h : core ≠ [], isBlank (core.getLast h) = false

theorem trim_eq (text : List Char) : trim text = (text.dropWhile isBlank).rdropWhile isBlank := rfl

theorem trim_padded (h : Padded core text) : trim text = trim core := by
  obtain ⟨before, after, hbefore, hafter, rfl⟩ := h
  have hback : (after.reverse.dropWhile isBlank) = [] :=
    List.dropWhile_eq_nil_iff.2 fun c hc => hafter c (List.mem_reverse.1 hc)
  rw [trim, trim, List.append_assoc, List.dropWhile_append_of_pos hbefore, List.dropWhile_append]
  split_ifs with hblank
  · rw [List.isEmpty_iff.1 hblank, List.dropWhile_eq_nil_iff.2 hafter]
  · rw [List.reverse_append, List.dropWhile_append, if_pos (by rw [hback]; rfl)]

theorem padded_trim (text : List Char) : Padded (trim text) text := by
  refine ⟨text.takeWhile isBlank, (text.dropWhile isBlank).rtakeWhile isBlank,
    fun c => List.mem_takeWhile_imp, fun c => List.mem_rtakeWhile_imp, ?_⟩
  rw [List.append_assoc, trim_eq, List.rdropWhile_append_rtakeWhile,
    List.takeWhile_append_dropWhile]

theorem isBlank_head_trim (h : trim text ≠ []) : isBlank ((trim text).head h) = false := by
  have hfront : trim text <+: text.dropWhile isBlank := List.rdropWhile_prefix isBlank _
  rw [hfront.head h]
  exact List.head_dropWhile_not isBlank (hfront.ne_nil h)

theorem isBlank_getLast_trim (h : trim text ≠ []) : isBlank ((trim text).getLast h) = false :=
  eq_false_of_ne_true (List.rdropWhile_last_not isBlank (text.dropWhile isBlank) h)

theorem trim_of_bare (first : ∀ h : core ≠ [], isBlank (core.head h) = false)
    (last : ∀ h : core ≠ [], isBlank (core.getLast h) = false) : trim core = core := by
  have hfront : core.dropWhile isBlank = core := by
    cases core with
    | nil => rfl
    | cons c rest =>
      have hfirst : isBlank c = false := first (List.cons_ne_nil c rest)
      rw [List.dropWhile_cons, hfirst, if_neg Bool.false_ne_true]
  rw [trim_eq, hfront, List.rdropWhile_eq_self_iff]
  intro h
  rw [last h]
  exact Bool.false_ne_true

theorem trimmed_iff : Trimmed text core ↔ core = trim text := by
  constructor
  · rintro ⟨hpadded, hfirst, hlast⟩
    rw [trim_padded hpadded, trim_of_bare hfirst hlast]
  · rintro rfl
    exact ⟨padded_trim text, isBlank_head_trim, isBlank_getLast_trim⟩

end HeapLatency
