import HeapLatency.Proofs.Number.Order
import HeapLatency.Proofs.Number.Rounding

/-!
# Arithmetic of numbers

What the operations give where their result is known without rounding, or known to lie on one
side of a number that the format holds. Whole numbers of at most 53 bits are held.
-/

namespace HeapLatency.Binary64

variable {negative : Bool} {num den units : Nat}

/-! ## Exact quotients -/

theorem ofExact_of_lt (h : roundMagnitude num den < overflow) :
    ofExact negative num den =
      .finite negative (roundMagnitude num den) ⟨aligned_roundMagnitude num den, h⟩ :=
  dif_pos h

theorem ofExact_of_le (h : overflow ≤ roundMagnitude num den) :
    ofExact negative num den = .infinite negative :=
  dif_neg (Nat.not_lt.2 h)

theorem ofExact_mul_right {k : Nat} (hk : 0 < k) (negative : Bool) (num den : Nat) :
    ofExact negative (num * k) (den * k) = ofExact negative num den := by
  simp only [ofExact, roundMagnitude_mul_right hk]

theorem ofExact_of_held (held : Held units) :
    ofExact negative units 1 = .finite negative units held := by
  have hround : roundMagnitude units 1 = units := roundMagnitude_one held.aligned
  have hlt : roundMagnitude units 1 < overflow := by
    rw [hround]
    exact held.bounded
  rw [ofExact_of_lt hlt]
  simp only [hround]

theorem units_of_ofExact {s : Bool} {held : Held units}
    (h : ofExact negative num den = .finite s units held) : units = roundMagnitude num den := by
  by_cases hlt : roundMagnitude num den < overflow
  · rw [ofExact_of_lt hlt, finite.injEq] at h
    exact h.2.symm
  · rw [ofExact_of_le (Nat.not_lt.1 hlt)] at h
    cases h

theorem ofExact_le {m : Nat} (negative : Bool) (held : Held m) (hden : 0 < den)
    (h : num ≤ m * den) :
    ∃ units held, ofExact negative num den = .finite negative units held ∧ units ≤ m := by
  have hle : roundMagnitude num den ≤ m := roundMagnitude_le hden held.aligned h
  exact ⟨_, _, ofExact_of_lt (Nat.lt_of_le_of_lt hle held.bounded), hle⟩

theorem ofExact_zero (negative : Bool) (hden : 0 < den) :
    ∃ held, ofExact negative 0 den = .finite negative 0 held := by
  have held : Held 0 := ⟨by decide, by decide⟩
  obtain ⟨units, hunits, heq, hle⟩ := ofExact_le negative held hden (Nat.zero_le _)
  obtain rfl : units = 0 := by omega
  exact ⟨hunits, heq⟩

/-! ## Finite operands -/

variable {base : Nat} {hunits : Held units} {hbase : Held base}

theorem div_finite (hpos : 0 < base) :
    finite negative units hunits / finite false base hbase =
      ofExact negative (units * unitsPerOne) base := by
  show (if base = 0 then _ else ofExact (negative != false) (units * unitsPerOne) base) = _
  rw [if_neg hpos.ne', Bool.bne_false]

theorem mul_finite : finite negative units hunits * finite false base hbase =
    ofExact negative (units * base) unitsPerOne := by
  show ofExact (negative != false) (units * base) unitsPerOne = _
  rw [Bool.bne_false]

theorem infinite_mul_finite (hpos : 0 < base) :
    infinite false * finite false base hbase = infinite false := if_neg hpos.ne'

/-! ## Whole numbers -/

theorem one_shiftLeft_mul (a b : Nat) : 1 <<< a * 1 <<< b = 1 <<< (a + b) := by
  rw [Nat.one_shiftLeft, Nat.one_shiftLeft, Nat.one_shiftLeft, Nat.pow_add]

theorem one_shiftLeft_le {a b : Nat} (h : a ≤ b) : 1 <<< a ≤ 1 <<< b := by
  rw [Nat.one_shiftLeft, Nat.one_shiftLeft]
  exact Nat.pow_le_pow_right Nat.two_pos h

theorem unitsPerOne_pos : 0 < unitsPerOne := by
  rw [unitsPerOne, Nat.one_shiftLeft]
  exact Nat.two_pow_pos 1074

theorem held_shiftLeft {k s : Nat} (hk : k ≤ 1 <<< 53) (hs : s < 2045) : Held (k <<< s) where
  aligned := aligned_shiftLeft_of_le hk s
  bounded := by
    rw [Nat.shiftLeft_eq, overflow, Nat.one_shiftLeft]
    rw [Nat.one_shiftLeft] at hk
    calc k * 2 ^ s ≤ 2 ^ 53 * 2 ^ s := Nat.mul_le_mul_right _ hk
      _ = 2 ^ (53 + s) := (Nat.pow_add 2 53 s).symm
      _ < 2 ^ 2098 := Nat.pow_lt_pow_right (by decide) (by omega)

theorem held_whole {n : Nat} (h : n ≤ 1 <<< 53) : Held (n * unitsPerOne) := by
  have hshift : n * unitsPerOne = n <<< 1074 := by
    rw [unitsPerOne, Nat.one_shiftLeft, Nat.shiftLeft_eq]
  rw [hshift]
  exact held_shiftLeft h (by decide)

theorem word_units_le {n : Nat} (h : n ≤ 1 <<< 64) : n * unitsPerOne ≤ 1 <<< 1138 :=
  calc n * unitsPerOne ≤ 1 <<< 64 * unitsPerOne := Nat.mul_le_mul_right _ h
    _ = 1 <<< 1138 := one_shiftLeft_mul 64 1074

theorem held_unitsPerOne : Held unitsPerOne := by
  have held := held_whole (n := 1) (by decide)
  rwa [Nat.one_mul] at held

theorem ofNat_eq {n : Nat} (h : n ≤ 1 <<< 53) :
    ofNat n = .finite false (n * unitsPerOne) (held_whole h) :=
  ofExact_of_held (held_whole h)

theorem zero_eq : (0 : Binary64) = .finite false (0 * unitsPerOne) (held_whole (Nat.zero_le _)) :=
  ofNat_eq (Nat.zero_le _)

theorem ofNat_mul {n : Nat} (h : n ≤ 1 <<< 53) (held : Held units) :
    ofNat n * .finite negative units held = ofExact negative (n * units) 1 := by
  rw [ofNat_eq h]
  show ofExact (false != negative) (n * unitsPerOne * units) unitsPerOne = _
  rw [Bool.false_bne, show n * unitsPerOne * units = n * units * unitsPerOne by ring,
    ← ofExact_mul_right unitsPerOne_pos negative (n * units) 1, Nat.one_mul]

theorem div_ofNat {n : Nat} (hn : 0 < n) (h : n ≤ 1 <<< 53) (held : Held units) :
    .finite negative units held / ofNat n = ofExact negative units n := by
  rw [ofNat_eq h]
  show (if n * unitsPerOne = 0 then _ else ofExact (negative != false) _ _) = _
  rw [if_neg (Nat.mul_pos hn unitsPerOne_pos).ne', Bool.bne_false,
    ofExact_mul_right unitsPerOne_pos]

/-- Numbers from `2 ^ 53` on are not all told apart. -/
theorem ofNat_eq_ofNat_succ : ofNat (1 <<< 53) = ofNat (1 <<< 53 + 1) := by
  decide +kernel

theorem ceil_finite (held : Held units) :
    (finite false units held).ceil =
      ofExact false
        ((if units % unitsPerOne ≠ 0 then units / unitsPerOne + 1 else units / unitsPerOne) *
          unitsPerOne) 1 := by
  simp only [ceil, Bool.not_false, Bool.true_and, bne_iff_ne]

theorem toNatUpTo_finite (limit : Nat) (held : Held units) :
    (finite false units held).toNatUpTo limit = Nat.min (units / unitsPerOne) limit := rfl

theorem div_le_of_le_whole {n : Nat} (h : units ≤ n * unitsPerOne) : units / unitsPerOne ≤ n :=
  Nat.div_le_of_le_mul (by rwa [Nat.mul_comm])

theorem toNatUpTo_ceil_le {n : Nat} (limit : Nat) (h : n ≤ 1 <<< 53) (hden : 0 < den)
    (hle : num ≤ n * unitsPerOne * den) :
    (ofExact false num den).ceil.toNatUpTo limit ≤ n := by
  obtain ⟨units, held, hquotient, hunits⟩ :=
    ofExact_le false (held_whole h) hden hle
  have hup : (if units % unitsPerOne ≠ 0 then units / unitsPerOne + 1
      else units / unitsPerOne) ≤ n := by
    split_ifs with hrest
    · -- with a rest the quotient is below the whole number
      rw [Nat.succ_le_iff, Nat.div_lt_iff_lt_mul unitsPerOne_pos]
      refine Nat.lt_of_le_of_ne hunits ?_
      rintro rfl
      exact hrest (Nat.mul_mod_left n unitsPerOne)
    · exact div_le_of_le_whole hunits
  have hscaled := Nat.mul_le_mul_right unitsPerOne hup
  rw [← Nat.mul_one (n * unitsPerOne)] at hscaled
  obtain ⟨whole, held', hceil, hwhole⟩ :=
    ofExact_le false (held_whole h) Nat.one_pos hscaled
  rw [hquotient, ceil_finite, hceil, toNatUpTo_finite]
  exact Nat.le_trans (Nat.min_le_left _ _) (div_le_of_le_whole hwhole)

/-! ## What a finite result tells of the operands -/

variable {x y : Binary64}

theorem isFinite_of_zero_mul (h : (ofNat 0 * x).isNaN = false) : x.isFinite = true := by
  rw [ofNat_eq (Nat.zero_le _)] at h
  cases x with
  | finite negative units held => rfl
  | infinite negative =>
    have hnan : (if 0 * unitsPerOne = 0 then nan else infinite (false != negative)).isNaN =
        false := h
    rw [if_pos (Nat.zero_mul _)] at hnan
    cases hnan
  | nan => cases h

theorem isFinite_of_div (h : (x / y).isFinite = true) : x.isFinite = true := by
  cases x with
  | finite negative units held => rfl
  | infinite negative => cases y <;> cases h
  | nan => cases y <;> cases h

theorem isFinite_of_sub (h : (x - y).isFinite = true) : x.isFinite = true ∧ y.isFinite = true := by
  cases x with
  | finite negative units held =>
    cases y with
    | finite negative units held => exact ⟨rfl, rfl⟩
    | infinite negative => cases h
    | nan => cases h
  | infinite negative =>
    cases y with
    | finite negative units held => cases h
    | infinite other =>
      exfalso
      revert h
      show ¬(if negative = !other then infinite negative else nan).isFinite = true
      split_ifs <;> nofun
    | nan => cases h
  | nan => cases y <;> cases h

theorem isNaN_of_add (h : (x + y).isNaN = false) : y.isNaN = false := by
  cases y with
  | finite negative units held => rfl
  | infinite negative => rfl
  | nan => cases x <;> cases h

theorem exists_units (hfinite : x.isFinite = true) (hpos : 0 < x) :
    ∃ units held, x = .finite false units held ∧ 0 < units := by
  obtain ⟨a, b, ha, hb, hab⟩ := lt_iff.1 hpos
  rw [zero_eq, rank, Nat.zero_mul, Option.some.injEq] at ha
  simp only [signed, Bool.false_eq_true, if_false, Nat.cast_zero] at ha
  cases x with
  | infinite negative => cases hfinite
  | nan => cases hfinite
  | finite negative units held =>
    rw [rank, Option.some.injEq] at hb
    cases negative with
    | false =>
      refine ⟨units, held, rfl, ?_⟩
      simp only [signed, Bool.false_eq_true, if_false] at hb
      omega
    | true =>
      simp only [signed, if_true] at hb
      omega

/-! ## Adding nothing -/

theorem same_of_rank {a : Int} (hx : x.rank = some a) (hy : y.rank = some a) :
    x.same y = true := by
  rw [same, Bool.and_eq_true, decide_eq_true_eq, decide_eq_true_eq]
  exact ⟨le_iff.2 ⟨a, a, hx, hy, Int.le_refl a⟩, le_iff.2 ⟨a, a, hy, hx, Int.le_refl a⟩⟩

/-- A zero moves no finite number, though it may change the sign of another zero. -/
theorem add_zero_mul (hx : x.isFinite = true) (hy : y.isFinite = true) :
    (x + ofNat 0 * y).isFinite = true ∧ (x + ofNat 0 * y).same x = true := by
  cases x with
  | infinite negative => cases hx
  | nan => cases hx
  | finite s a ha =>
    cases y with
    | infinite negative => cases hy
    | nan => cases hy
    | finite t b hb =>
      obtain ⟨hzero, heq⟩ := ofExact_zero t Nat.one_pos
      rw [ofNat_mul (Nat.zero_le _), Nat.zero_mul, heq]
      show (addFinite s a t 0).isFinite = true ∧ (addFinite s a t 0).same _ = true
      have hsum : signed s a + signed t 0 = signed s a := by
        cases t <;> simp [signed]
      rw [addFinite, hsum]
      by_cases ha0 : a = 0
      · subst ha0
        have h0 : signed s 0 = 0 := by cases s <;> rfl
        obtain ⟨hz, hzeq⟩ := ofExact_zero (s && t) Nat.one_pos
        rw [if_pos h0, zero, hzeq]
        refine ⟨rfl, same_of_rank (a := 0) ?_ ?_⟩
        · cases s <;> cases t <;> rfl
        · cases s <;> rfl
      · have hne : signed s a ≠ 0 := by
          cases s with
          | false => exact Int.natCast_ne_zero.2 ha0
          | true => exact Int.neg_ne_zero.2 (Int.natCast_ne_zero.2 ha0)
        have habs : (signed s a).natAbs = a := by
          cases s <;> simp [signed]
        have hneg : decide (signed s a < 0) = s := by
          cases s with
          | false => simp [signed]
          | true => simp [signed]; omega
        rw [if_neg hne, habs, hneg, ofExact_of_held ha]
        exact ⟨rfl, same_of_rank rfl rfl⟩

end HeapLatency.Binary64
