import HeapLatency.Proofs.Number.Arithmetic
import Mathlib.Data.Rat.Floor

/-!
# Exact values

A finite number stands for a rational number, and all that the format says of finite numbers can be
said of these: their order, their whole parts, and which whole numbers there are. An infinity and
NaN stand for nothing.
-/

namespace HeapLatency

/-- The whole part of a rational number, toward zero. -/
def towardZero (value : ℚ) : ℤ := if 0 ≤ value then ⌊value⌋ else ⌈value⌉

theorem towardZero_intCast (n : ℤ) : towardZero n = n := by
  rw [towardZero, Int.floor_intCast, Int.ceil_intCast, ite_self]

namespace Binary64

/-- The rational number that a finite number stands for. -/
def value? : Binary64 → Option ℚ
  | .finite negative units _ => some ((signed negative units : ℚ) / unitsPerOne)
  | _ => none

variable {negative : Bool} {units : Nat} {x y : Binary64} {a b : ℚ}

theorem unitsPerOne_cast_pos : (0 : ℚ) < unitsPerOne := Nat.cast_pos.2 unitsPerOne_pos

theorem value?_finite (held : Held units) :
    (finite negative units held).value? = some ((signed negative units : ℚ) / unitsPerOne) := rfl

theorem exists_finite_of_value? (h : x.value? = some a) :
    ∃ negative units held, x = .finite negative units held ∧
      a = (signed negative units : ℚ) / unitsPerOne := by
  cases x with
  | finite negative units held => exact ⟨negative, units, held, rfl, (Option.some.inj h).symm⟩
  | infinite negative => cases h
  | nan => cases h

/-! ## Order -/

theorem lt_iff_of_rank {m n : ℤ} (hx : x.rank = some m) (hy : y.rank = some n) :
    x < y ↔ m < n := by
  rw [lt_iff]
  simp [hx, hy]

theorem lt_iff_of_value? (hx : x.value? = some a) (hy : y.value? = some b) : x < y ↔ a < b := by
  obtain ⟨s, m, hm, rfl, rfl⟩ := exists_finite_of_value? hx
  obtain ⟨t, n, hn, rfl, rfl⟩ := exists_finite_of_value? hy
  rw [div_lt_div_iff_of_pos_right unitsPerOne_cast_pos, Int.cast_lt]
  exact lt_iff_of_rank rfl rfl

/-! ## Whole numbers -/

theorem value?_whole {n : Nat} (held : Held (n * unitsPerOne)) :
    (finite false (n * unitsPerOne) held).value? = some (n : ℚ) := by
  have hsigned : (signed false (n * unitsPerOne) : ℚ) = n * unitsPerOne := by
    simp [signed]
  rw [value?_finite, hsigned, mul_div_cancel_right₀ _ unitsPerOne_cast_pos.ne']

theorem value?_ofNat {n : Nat} (h : n ≤ 1 <<< 53) : (ofNat n).value? = some (n : ℚ) := by
  rw [ofNat_eq h, value?_whole]

theorem exists_held_of_value? {n : Nat} (hn : 0 < n) (h : x.value? = some (n : ℚ)) :
    ∃ held, x = .finite false (n * unitsPerOne) held := by
  obtain ⟨s, m, hm, rfl, hvalue⟩ := exists_finite_of_value? h
  have hunits : signed s m = ((n * unitsPerOne : Nat) : ℤ) := by
    rw [eq_div_iff unitsPerOne_cast_pos.ne'] at hvalue
    exact_mod_cast hvalue.symm
  have hpos : 0 < n * unitsPerOne := Nat.mul_pos hn unitsPerOne_pos
  cases s with
  | false =>
    simp only [signed, Bool.false_eq_true, if_false, Int.natCast_inj] at hunits
    subst hunits
    exact ⟨hm, rfl⟩
  | true =>
    simp only [signed, if_true] at hunits
    omega

/-! ## Whole parts -/

theorem towardZero_value (negative : Bool) (units : Nat) :
    towardZero ((signed negative units : ℚ) / unitsPerOne) =
      signed negative (units / unitsPerOne) := by
  have hfloor : ⌊((units : ℤ) : ℚ) / unitsPerOne⌋ = ((units / unitsPerOne : Nat) : ℤ) := by
    rw [Rat.floor_intCast_div_natCast, Int.natCast_div]
  cases negative with
  | false =>
    have hnonneg : (0 : ℚ) ≤ ((units : ℤ) : ℚ) / unitsPerOne := by positivity
    rw [show signed false units = units from rfl, towardZero, if_pos hnonneg, hfloor]
    rfl
  | true =>
    have hneg : ((signed true units : ℤ) : ℚ) / unitsPerOne =
        -(((units : ℤ) : ℚ) / unitsPerOne) := by
      rw [show signed true units = -(units : ℤ) from rfl, Int.cast_neg, neg_div]
    rw [hneg, towardZero]
    split_ifs with hnonneg
    · -- only zero is negative and not below zero
      have hzero : ((units : ℤ) : ℚ) / unitsPerOne = 0 :=
        le_antisymm (neg_nonneg.1 hnonneg) (by positivity)
      have hunits : units = 0 := by
        rw [div_eq_zero_iff] at hzero
        exact_mod_cast hzero.resolve_right unitsPerOne_cast_pos.ne'
      rw [hzero, hunits, Nat.zero_div]
      rfl
    · rw [Int.ceil_neg, hfloor]
      rfl

theorem held_div (held : Held units) : Held (units / unitsPerOne * unitsPerOne) := by
  by_cases hfew : units / unitsPerOne ≤ 1 <<< 53
  · exact held_whole hfew
  · -- from `2 ^ 53` on all numbers are whole
    have hdvd : unitsPerOne ∣ units := by
      have hspacing : spacing (1 <<< 53 * unitsPerOne) = 2 * unitsPerOne := by decide +kernel
      have hlarge : 1 <<< 53 * unitsPerOne ≤ units :=
        (Nat.le_div_iff_mul_le unitsPerOne_pos).1 (Nat.le_of_lt (Nat.not_le.1 hfew))
      have htwo := spacing_dvd_spacing hlarge
      rw [hspacing] at htwo
      exact (Nat.dvd_mul_left unitsPerOne 2).trans
        (htwo.trans (Nat.dvd_of_mod_eq_zero held.aligned))
    rw [Nat.div_mul_cancel hdvd]
    exact held

theorem trunc_finite (held : Held units) :
    (finite negative units held).trunc =
      .finite negative (units / unitsPerOne * unitsPerOne) (held_div held) :=
  ofExact_of_held (held_div held)

theorem value?_trunc (h : x.value? = some a) : x.trunc.value? = some (towardZero a : ℚ) := by
  obtain ⟨negative, units, held, rfl, rfl⟩ := exists_finite_of_value? h
  have hsigned (whole : Nat) :
      signed negative (whole * unitsPerOne) = signed negative whole * unitsPerOne := by
    cases negative <;> simp [signed]
  rw [trunc_finite, value?_finite, towardZero_value, hsigned, Int.cast_mul, Int.cast_natCast,
    mul_div_cancel_right₀ _ unitsPerOne_cast_pos.ne']

theorem toNatUpTo_of_value? (limit : Nat) (h : x.value? = some a) :
    x.toNatUpTo limit = Nat.min (towardZero a).toNat limit := by
  obtain ⟨negative, units, held, rfl, rfl⟩ := exists_finite_of_value? h
  rw [towardZero_value]
  cases negative with
  | false => rfl
  | true =>
    have hneg : (signed true (units / unitsPerOne)).toNat = 0 :=
      Int.toNat_of_nonpos (Int.neg_nonpos_of_nonneg (Int.natCast_nonneg _))
    rw [hneg]
    exact (Nat.zero_min limit).symm

/-! ## Rounded whole numbers -/

/-- Rounding to the format does not make a whole number smaller. -/
def NotBelow (n : Nat) : Prop := n * unitsPerOne ≤ roundMagnitude (n * unitsPerOne) 1

theorem NotBelow.of_held {n : Nat} (held : Held (n * unitsPerOne)) : NotBelow n :=
  Nat.le_of_eq (roundMagnitude_one held.aligned).symm

theorem signed_of_nonneg {negative : Bool} {units : Nat} (h : 0 ≤ signed negative units) :
    signed negative units = units := by
  cases negative with
  | false => rfl
  | true =>
    simp only [signed, if_true] at h ⊢
    omega

theorem rank_ofNat (n : Nat) :
    (ofNat n).rank = some (Min.min (roundMagnitude (n * unitsPerOne) 1 : ℤ) overflow) := by
  by_cases hlt : roundMagnitude (n * unitsPerOne) 1 < overflow
  · rw [ofNat, ofExact_of_lt hlt, min_eq_left (Int.ofNat_le.2 (Nat.le_of_lt hlt))]
    rfl
  · rw [ofNat, ofExact_of_le (Nat.not_lt.1 hlt), min_eq_right (Int.ofNat_le.2 (Nat.not_lt.1 hlt))]
    rfl

/-- No number of the format lies between a whole number and what it is rounded up to. -/
theorem lt_ofNat_iff {n : Nat} (hn : NotBelow n) (hx : x.value? = some a) :
    x < ofNat n ↔ a < n := by
  obtain ⟨negative, units, held, rfl, rfl⟩ := exists_finite_of_value? hx
  have hcast : (signed negative units : ℚ) < (n : ℚ) * unitsPerOne ↔
      signed negative units < ((n * unitsPerOne : Nat) : ℤ) := by
    rw [← Nat.cast_mul, ← Int.cast_natCast, Int.cast_lt]
  have hkept : ((n * unitsPerOne : Nat) : ℤ) ≤ signed negative units →
      (roundMagnitude (n * unitsPerOne) 1 : ℤ) ≤ signed negative units := by
    intro hle
    have hunits := signed_of_nonneg (Int.le_trans (Int.natCast_nonneg _) hle)
    rw [hunits, Int.ofNat_le] at hle ⊢
    exact roundMagnitude_le Nat.one_pos held.aligned (by rwa [Nat.mul_one])
  have hup : ((n * unitsPerOne : Nat) : ℤ) ≤ roundMagnitude (n * unitsPerOne) 1 :=
    Int.ofNat_le.2 hn
  obtain ⟨place, hplace, -, hfinite⟩ := rank_of_isFinite (x := finite negative units held) rfl
  obtain rfl := Option.some.inj hplace
  rw [div_lt_iff₀ unitsPerOne_cast_pos, hcast, lt_iff_of_rank rfl (rank_ofNat n), lt_min_iff]
  omega

end Binary64

end HeapLatency
