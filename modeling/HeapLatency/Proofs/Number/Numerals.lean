import HeapLatency.Number.Decimal
import Mathlib.Data.Nat.Digits.Defs

/-!
# Written whole numbers

Which texts are whole numbers, and of which value: decimal digits, one at least, behind an optional
sign. Leading zeros do not count, and there is no bound on the digits; a reader with bounds accepts
the texts whose value is within them.
-/

namespace HeapLatency

def digitOf (c : Char) : Nat := c.toNat - '0'.toNat

/-- A text of decimal digits with its value. The last digit counts ones. -/
structure Numeral (text : List Char) (n : Nat) : Prop where
  nonempty : text ≠ []
  digits : ∀ c ∈ text, '0' ≤ c ∧ c ≤ '9'
  value : n = Nat.ofDigits 10 (text.map digitOf).reverse

/-- A natural number, with or without a plus sign. -/
inductive WrittenNat : List Char → Nat → Prop where
  | plain {text : List Char} {n : Nat} (numeral : Numeral text n) : WrittenNat text n
  | plus {text : List Char} {n : Nat} (numeral : Numeral text n) : WrittenNat ('+' :: text) n

/-- An integer, with or without a sign. -/
inductive WrittenInt : List Char → Int → Prop where
  | plain {text : List Char} {n : Nat} (numeral : Numeral text n) : WrittenInt text n
  | plus {text : List Char} {n : Nat} (numeral : Numeral text n) : WrittenInt ('+' :: text) n
  | minus {text : List Char} {n : Nat} (numeral : Numeral text n) : WrittenInt ('-' :: text) (-n)

variable {text : List Char} {n : Nat}

theorem isDigit_iff {c : Char} : c.isDigit = true ↔ '0' ≤ c ∧ c ≤ '9' := by
  rw [Char.isDigit, Bool.and_eq_true, decide_eq_true_eq, decide_eq_true_eq]
  rfl

theorem ofDigits_eq (text : List Char) :
    Decimal.ofDigits text = Nat.ofDigits 10 (text.map digitOf).reverse := by
  rw [Nat.ofDigits_eq_foldr, List.foldr_reverse, List.foldl_map, Decimal.ofDigits]
  simp only [digitOf, Nat.add_comm, Nat.cast_id]

theorem readDigits_eq_some_iff : Decimal.readDigits text = some n ↔ Numeral text n := by
  rw [Decimal.readDigits, ofDigits_eq]
  split_ifs with h
  · rw [Bool.and_eq_true, Bool.not_eq_true', List.isEmpty_eq_false_iff, List.all_eq_true] at h
    rw [Option.some.injEq]
    constructor
    · intro hvalue
      exact ⟨h.1, fun c hc => isDigit_iff.1 (h.2 c hc), hvalue.symm⟩
    · intro hnumeral
      exact hnumeral.value.symm
  · refine iff_of_false nofun fun hnumeral => h ?_
    rw [Bool.and_eq_true, Bool.not_eq_true', List.isEmpty_eq_false_iff, List.all_eq_true]
    exact ⟨hnumeral.nonempty, fun c hc => isDigit_iff.2 (hnumeral.digits c hc)⟩

theorem Numeral.head_digit {c : Char} (h : Numeral (c :: text) n) : '0' ≤ c ∧ c ≤ '9' :=
  h.digits c List.mem_cons_self

theorem writtenNat_iff_of_plus : WrittenNat ('+' :: text) n ↔ Numeral text n := by
  constructor
  · rintro (hnumeral | hnumeral)
    · exact absurd hnumeral.head_digit (by decide)
    · exact hnumeral
  · exact .plus

theorem writtenNat_iff_of_ne_plus (h : ∀ rest, text ≠ '+' :: rest) :
    WrittenNat text n ↔ Numeral text n := by
  constructor
  · rintro (hnumeral | hnumeral)
    · exact hnumeral
    · exact absurd rfl (h _)
  · exact .plain

theorem readNat?_eq_some_iff {limit : Nat} :
    readNat? limit text = some n ↔ WrittenNat text n ∧ n ≤ limit := by
  unfold readNat?
  split
  · rw [Option.filter_eq_some_iff, decide_eq_true_eq, readDigits_eq_some_iff,
      writtenNat_iff_of_plus]
  · rename_i hplain
    rw [Option.filter_eq_some_iff, decide_eq_true_eq, readDigits_eq_some_iff,
      writtenNat_iff_of_ne_plus hplain]

/-- The three ways to write an integer are told apart by the first character. -/
theorem splitSign_writtenInt {i : Int} :
    WrittenInt text i ↔ ∃ n : Nat, Numeral (Decimal.splitSign text).2 n ∧
      i = if (Decimal.splitSign text).1 then -(n : Int) else n := by
  rw [Decimal.splitSign.eq_def]
  split
  · constructor
    · intro h
      cases h with
      | plain hnumeral => exact absurd hnumeral.head_digit (by decide)
      | minus hnumeral => exact ⟨_, hnumeral, rfl⟩
    · rintro ⟨n, hnumeral, rfl⟩
      exact .minus hnumeral
  · constructor
    · intro h
      cases h with
      | plain hnumeral => exact absurd hnumeral.head_digit (by decide)
      | plus hnumeral => exact ⟨_, hnumeral, rfl⟩
    · rintro ⟨n, hnumeral, rfl⟩
      exact .plus hnumeral
  · rename_i hminus hplus
    constructor
    · intro h
      cases h with
      | plain hnumeral => exact ⟨_, hnumeral, rfl⟩
      | plus hnumeral => exact absurd rfl (hplus _)
      | minus hnumeral => exact absurd rfl (hminus _)
    · rintro ⟨n, hnumeral, rfl⟩
      exact .plain hnumeral

theorem readInt?_eq_some_iff {least greatest i : Int} :
    readInt? least greatest text = some i ↔ WrittenInt text i ∧ least ≤ i ∧ i ≤ greatest := by
  rw [readInt?, Option.filter_eq_some_iff, decide_eq_true_eq, splitSign_writtenInt]
  refine and_congr_left fun _ => ?_
  rw [Option.map_eq_some_iff]
  constructor
  · rintro ⟨_, hread, rfl⟩
    obtain ⟨n, hdigits, hn⟩ := Option.bind_eq_some_iff.1 hread
    obtain rfl := Option.some.inj hn
    exact ⟨n, readDigits_eq_some_iff.1 hdigits, rfl⟩
  · rintro ⟨n, hnumeral, rfl⟩
    refine ⟨n, ?_, rfl⟩
    rw [readDigits_eq_some_iff.2 hnumeral]
    rfl

end HeapLatency
