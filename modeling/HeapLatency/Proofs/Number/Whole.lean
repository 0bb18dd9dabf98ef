import HeapLatency.Number.Spelling
import HeapLatency.Proofs.Number.Shortest

/-!
# Whole numbers as plain text

A natural number below `2 ^ 53` is held exactly, and the shortest decimal that stands for it is the
number itself without its last zeros. Written out as plain text it has the digits of the number.
-/

namespace HeapLatency

theorem toDigits_mul_pow {n : Nat} (hn : 0 < n) (e : Nat) :
    Nat.toDigits 10 (n * 10 ^ e) = Nat.toDigits 10 n ++ List.replicate e '0' := by
  induction e with
  | zero => rw [Nat.pow_zero, Nat.mul_one, List.replicate_zero, List.append_nil]
  | succ e ih =>
    have hpos : 0 < n * 10 ^ e := Nat.mul_pos hn (Nat.pow_pos (by decide))
    have hstep : n * 10 ^ (e + 1) = 10 * (n * 10 ^ e) := by ring
    have hzero : Nat.digitChar 0 = '0' := rfl
    rw [hstep, Nat.toDigits_of_base_le (by decide) (Nat.le_mul_of_pos_right 10 hpos),
      Nat.mul_div_cancel_left _ (by decide), Nat.mul_mod_right, ih, hzero, List.append_assoc,
      ← List.replicate_succ']

namespace Binary64

variable {n : Nat}

theorem spacing_shift_le (hn : 0 < n) (h : n < 2 ^ 53) (s : Nat) :
    spacing (n * 1 <<< s) ≤ 1 <<< s := by
  rw [Nat.one_shiftLeft, spacing_eq_two_pow]
  have hne : n * 2 ^ s ≠ 0 := (Nat.mul_pos hn (Nat.two_pow_pos s)).ne'
  have hlt : n * 2 ^ s < 2 ^ (53 + s) := by
    rw [Nat.pow_add]
    exact Nat.mul_lt_mul_of_pos_right h (Nat.two_pow_pos s)
  have hlog := (Nat.log2_lt hne).2 hlt
  exact Nat.pow_le_pow_right (by decide) (by omega)

/-- Below `2 ^ 53` the numbers of the format are no further apart than the whole numbers. -/
theorem spacing_whole_le (hn : 0 < n) (h : n < 2 ^ 53) :
    spacing (n * unitsPerOne) ≤ unitsPerOne :=
  spacing_shift_le hn h 1074

theorem position_whole (hn : 0 < n) : decimalPosition (n * unitsPerOne) = Decimal.width n := by
  rw [decimalPosition, if_pos (Nat.le_mul_of_pos_left _ hn),
    Nat.mul_div_cancel n unitsPerOne_pos]

theorem eq_of_near_whole (hn : 0 < n) (h : n < 2 ^ 53) {k e : Nat}
    (hnear : Near (n * unitsPerOne) (k * placeNum e) (placeDen e)) : k * 10 ^ e = n := by
  have hgap : gapBelow (n * unitsPerOne) ≤ 2 * unitsPerOne :=
    Nat.le_trans (gapBelow_le _) (Nat.mul_le_mul_left 2 (spacing_whole_le hn h))
  have hgapAbove : gapAbove (n * unitsPerOne) ≤ 2 * unitsPerOne :=
    Nat.mul_le_mul_left 2 (spacing_whole_le hn h)
  have hplace : k * placeNum e = k * 10 ^ e * unitsPerOne := by
    rw [placeNum_natCast]
    show k * (unitsPerOne * 10 ^ e) = _
    ring
  have hbelow := hnear.below
  have habove := hnear.above
  rw [placeDen_natCast, Nat.mul_one, Nat.mul_one, hplace] at hbelow habove
  have hlow : 4 * n * unitsPerOne ≤ (4 * (k * 10 ^ e) + 2) * unitsPerOne := by
    rw [Nat.add_mul, Nat.mul_assoc, Nat.mul_assoc 4 (k * 10 ^ e)]
    omega
  have hhigh : 4 * (k * 10 ^ e) * unitsPerOne ≤ (4 * n + 2) * unitsPerOne := by
    rw [Nat.add_mul, Nat.mul_assoc, Nat.mul_assoc 4 n]
    omega
  have hle := Nat.le_of_mul_le_mul_right hlow unitsPerOne_pos
  have hge := Nat.le_of_mul_le_mul_right hhigh unitsPerOne_pos
  omega

theorem isSome_candidate?_whole (tie : Tie) (n : Nat) :
    (candidate? tie (n * unitsPerOne) (Decimal.width n) (Decimal.width n)).isSome = true := by
  have hplace : placeNum (0 : Nat) = unitsPerOne := placeNum_neg 0
  have hlower : n * unitsPerOne * placeDen (0 : Nat) / placeNum (0 : Nat) = n := by
    rw [placeDen_natCast, Nat.mul_one, hplace, Nat.mul_div_cancel n unitsPerOne_pos]
  have hreaches : reaches (n * unitsPerOne) (placeDen (0 : Nat))
      (n * unitsPerOne * placeDen (0 : Nat) - n * placeNum (0 : Nat))
      (gapBelow (n * unitsPerOne)) = true := by
    apply reaches_of_lt
    rw [placeDen_natCast, hplace, Nat.mul_one, Nat.mul_one, Nat.sub_self]
    exact Nat.lt_of_lt_of_le (spacing_pos _) (spacing_le_gapBelow _)
  rw [candidate?, Option.isSome_map, Int.sub_self, show (0 : Int) = (0 : Nat) from rfl, onGrid?_eq]
  simp only [hlower, hreaches]
  split
  · simp_all
  · rfl
  · rfl
  · split_ifs <;> rfl

/-- The shortest decimal of a whole number is a whole number of tens, hundreds and so on. -/
theorem shortest_whole (tie : Tie) (hn : 0 < n) (h : n < 2 ^ 53) :
    ∃ k e : Nat, shortest tie (n * unitsPerOne) = ⟨k, e⟩ ∧ 0 < k ∧ k * 10 ^ e = n := by
  have hwidth : Decimal.width n ≤ 17 := by
    refine (Nat.length_toDigits_le_iff (by decide) (by decide)).2 ?_
    exact Nat.lt_trans h (by decide)
  have hpos := Decimal.width_pos n
  have hsplit : List.range' 1 17 =
      List.range' 1 (Decimal.width n) ++
        List.range' (1 + Decimal.width n) (17 - Decimal.width n) := by
    rw [List.range'_append_1, Nat.add_sub_cancel' hwidth]
  have hsome : ((List.range' 1 (Decimal.width n)).findSome?
      (candidate? tie (n * unitsPerOne) (Decimal.width n))).isSome = true := by
    rw [List.findSome?_isSome_iff]
    exact ⟨_, List.mem_range'_1.2 (by omega), isSome_candidate?_whole tie n⟩
  obtain ⟨d, hd⟩ := Option.isSome_iff_exists.1 hsome
  obtain ⟨digits, hdigits, hfound⟩ := List.exists_of_findSome?_eq_some hd
  rw [List.mem_range'_1] at hdigits
  obtain ⟨e, he⟩ : ∃ e : Nat, Decimal.width n = digits + e :=
    ⟨Decimal.width n - digits, by omega⟩
  obtain ⟨k, hgrid, hk⟩ := Option.map_eq_some_iff.1 hfound
  have hexponent : (Decimal.width n : Int) - digits = e := by omega
  rw [hexponent] at hgrid hk
  have hvalue := eq_of_near_whole hn h (near_of_onGrid? hgrid).1
  have hkpos : 0 < k := Nat.pos_of_mul_pos_right (hvalue ▸ hn)
  have hround : k ≠ Nat.pow 10 digits := by
    rintro rfl
    -- the number would have one digit more
    have hlt := Decimal.lt_pow_width n
    rw [he, Nat.pow_add] at hlt
    exact absurd hvalue (Nat.ne_of_gt hlt)
  rw [if_neg hround] at hk
  refine ⟨k, e, ?_, hkpos, hvalue⟩
  rw [shortest_eq, position_whole hn, hsplit, List.findSome?_append, hd, Option.some_or,
    Option.getD_some, ← hk]

theorem plainText_ofNat (h : n < 2 ^ 53) : (ofNat n).plainText = natText n := by
  have hheld : n ≤ 1 <<< 53 := by
    rw [Nat.one_shiftLeft]
    exact Nat.le_of_lt h
  rw [ofNat_eq hheld]
  show "" ++ (if n * unitsPerOne = 0 then "0" else
    (shortest .upward (n * unitsPerOne)).positional) = natText n
  rw [String.empty_append]
  rcases Nat.eq_zero_or_pos n with rfl | hn
  · rw [Nat.zero_mul, if_pos rfl]
    rfl
  · obtain ⟨k, e, hshortest, hk, hvalue⟩ := shortest_whole .upward hn h
    rw [if_neg (Nat.mul_pos hn unitsPerOne_pos).ne', hshortest, Decimal.positional,
      if_pos (Int.natCast_nonneg e), natText, ← hvalue, toDigits_mul_pow hk]
    rfl

end Binary64

end HeapLatency
