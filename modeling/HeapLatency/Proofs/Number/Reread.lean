import HeapLatency.Json.Scan
import HeapLatency.Proofs.Number.Shortest

/-!
# Reading by powers of ten

A printed number is read back by one product or quotient of its digits with a power of ten, each
rounded on the way. The result is always finite. It is the printed number wherever the digits
and the power are held by the format; elsewhere it may be a neighbour.
-/

namespace HeapLatency

open JsonScan (maxPower)

namespace Decimal

/-- The decimal as data text spells it: a whole number of the middle range is written out, with
a zero behind its point. -/
def spelled (d : Decimal) : Decimal :=
  if 0 ≤ d.exponent ∧ d.exponent + width d.digits ≤ 16 then
    ⟨10 * (d.digits * 10 ^ d.exponent.toNat), -1⟩
  else d

/-- A decimal from its digits: times a power of ten, or divided by one. A power that the format
does not hold is divided by in two parts. -/
def byPowers (d : Decimal) : Binary64 :=
  if 0 ≤ d.exponent then .ofNat d.digits * .ofNat (Nat.pow 10 d.exponent.natAbs)
  else if -maxPower ≤ d.exponent then .ofNat d.digits / .ofNat (Nat.pow 10 d.exponent.natAbs)
  else
    .ofNat d.digits / .ofNat (Nat.pow 10 maxPower) /
      .ofNat (Nat.pow 10 (d.exponent + maxPower).natAbs)

end Decimal

namespace Binary64

/-- What reading gives for the data text of a number. -/
def reread : Binary64 → Binary64
  | .finite negative units held =>
    if units = 0 then .finite negative units held
    else
      let value := (shortest .even units).spelled.byPowers
      if negative then -value else value
  | x => x

variable {units : Nat}

/-! ## Finite results -/

/-- The largest finite magnitude. -/
def largest : Nat := (1 <<< 53 - 1) <<< 2045

theorem held_largest : Held largest :=
  ⟨by decide +kernel, by decide +kernel⟩

theorem isFinite_of_ofExact {negative : Bool} {num den : Nat} (hden : 0 < den)
    (h : num ≤ largest * den) : (ofExact negative num den).isFinite = true := by
  obtain ⟨m, held, heq, hle⟩ := ofExact_le negative held_largest hden h
  rw [heq]
  rfl

theorem exists_ofNat {n : Nat} (hpos : 0 < n) (h : n * unitsPerOne ≤ largest) :
    ∃ m held, ofNat n = .finite false m held ∧ unitsPerOne ≤ m ∧
      (1 <<< 53) * m ≤ (1 <<< 53 + 1) * (n * unitsPerOne) := by
  have hscaled : n * unitsPerOne ≤ largest * 1 := by rwa [Nat.mul_one]
  obtain ⟨m, held, heq, hle⟩ := ofExact_le false held_largest Nat.one_pos hscaled
  have hm := units_of_ofExact heq
  have hone : unitsPerOne * 1 ≤ n * unitsPerOne := by
    rw [Nat.mul_comm]
    exact Nat.mul_le_mul_right unitsPerOne hpos
  have hbinade : (1 <<< 52) * 1 ≤ n * unitsPerOne :=
    Nat.le_trans (Nat.mul_le_mul_right 1 (one_shiftLeft_le (by decide))) hone
  refine ⟨m, held, heq, ?_, ?_⟩
  · rw [hm]
    exact le_roundMagnitude Nat.one_pos held_unitsPerOne.aligned hone
  · have herror := roundMagnitude_mul_le_of_le Nat.one_pos hbinade
    rwa [← hm, Nat.mul_one, ← Nat.add_one_mul] at herror

theorem isFinite_div_ofNat {x : Binary64} {n : Nat} (hx : x.isFinite = true) (hpos : 0 < n)
    (h : n * unitsPerOne ≤ largest) : (x / ofNat n).isFinite = true := by
  obtain ⟨m, held, heq, hone, -⟩ := exists_ofNat hpos h
  have hm : 0 < m := Nat.lt_of_lt_of_le unitsPerOne_pos hone
  cases x with
  | infinite negative => cases hx
  | nan => cases hx
  | finite negative a ha =>
    rw [heq]
    show (if m = 0 then _ else ofExact (negative != false) (a * unitsPerOne) m).isFinite = true
    rw [if_neg hm.ne']
    obtain ⟨units, held', hquotient, -⟩ :=
      ofExact_le (negative != false) ha hm (Nat.mul_le_mul_left a hone)
    rw [hquotient]
    rfl

theorem pow_ten_le_largest {k : Nat} (h : k ≤ maxPower) :
    Nat.pow 10 k * unitsPerOne ≤ largest := by
  have hmost : Nat.pow 10 maxPower * unitsPerOne ≤ largest := by decide +kernel
  generalize maxPower = greatest at h hmost
  exact Nat.le_trans (Nat.mul_le_mul_right _ (Nat.pow_le_pow_right (by decide) h)) hmost

/-! ## Products near the end of the format -/

theorem mul_near_le {units num : Nat} (hnear : Near units num 1) (hone : unitsPerOne ≤ num) :
    (1 <<< 53) * num ≤ (1 <<< 53 + 1) * units := by
  have habove := hnear.above
  rw [gapAbove, Nat.mul_one, Nat.mul_one] at habove
  have h52 : (1 <<< 52 : Nat) = 4503599627370496 := by decide
  have h53 : (1 <<< 53 : Nat) = 9007199254740992 := by decide
  have hleast : 1 <<< 60 ≤ unitsPerOne := one_shiftLeft_le (by decide)
  have h60 : (1 <<< 60 : Nat) = 1152921504606846976 := by decide
  have hunits : 1 <<< 52 ≤ units := by
    by_contra hlt
    rw [spacing_eq_one (by omega)] at habove
    omega
  have hspacing := spacing_mul_le hunits
  rw [h52] at hspacing
  rw [h53]
  omega

/-- Three roundings move a product by less than three of the last places. -/
theorem mul_le_of_roundings {value n k a p s : Nat} (hvalue : n * k = value * unitsPerOne)
    (hunits : units ≤ (1 <<< 53 - 4) <<< s)
    (hnear : (1 <<< 53) * value ≤ (1 <<< 53 + 1) * units)
    (ha : (1 <<< 53) * a ≤ (1 <<< 53 + 1) * n) (hp : (1 <<< 53) * p ≤ (1 <<< 53 + 1) * k) :
    a * p ≤ (1 <<< 53 - 1) <<< s * unitsPerOne := by
  have hplaces : (1 <<< 53 + 1) ^ 3 * (1 <<< 53 - 4) ≤ (1 <<< 53) ^ 3 * (1 <<< 53 - 1) := by
    decide
  have hpos : 0 < (1 <<< 53 : Nat) ^ 3 := by decide
  rw [Nat.shiftLeft_eq] at hunits ⊢
  generalize (1 <<< 53 : Nat) = b at *
  apply Nat.le_of_mul_le_mul_left _ hpos
  calc b ^ 3 * (a * p) = b * (b * a) * (b * p) := by ring
    _ ≤ b * ((b + 1) * n) * ((b + 1) * k) :=
        Nat.mul_le_mul (Nat.mul_le_mul_left b ha) hp
    _ = (b + 1) ^ 2 * b * (n * k) := by ring
    _ = (b + 1) ^ 2 * (b * value) * unitsPerOne := by
        rw [hvalue]
        ring
    _ ≤ (b + 1) ^ 2 * ((b + 1) * ((b - 4) * 2 ^ s)) * unitsPerOne :=
        Nat.mul_le_mul_right _ (Nat.mul_le_mul_left _
          (Nat.le_trans hnear (Nat.mul_le_mul_left _ hunits)))
    _ = (b + 1) ^ 3 * (b - 4) * (2 ^ s * unitsPerOne) := by ring
    _ ≤ b ^ 3 * (b - 1) * (2 ^ s * unitsPerOne) := Nat.mul_le_mul_right _ hplaces
    _ = b ^ 3 * ((b - 1) * 2 ^ s * unitsPerOne) := by ring

theorem eq_of_last {s : Nat} (hheld : units % spacing units = 0)
    (hlow : (1 <<< 53 - 4) <<< s < units) (hhigh : units < 1 <<< (53 + s)) :
    units = (1 <<< 53 - 3) <<< s ∨ units = (1 <<< 53 - 2) <<< s ∨
      units = (1 <<< 53 - 1) <<< s := by
  simp only [Nat.shiftLeft_eq, Nat.one_mul] at hlow hhigh ⊢
  have hbinade : 2 ^ (52 + s) ≤ units := by
    rw [Nat.pow_add]
    refine Nat.le_of_lt (Nat.lt_of_le_of_lt (Nat.mul_le_mul_right _ ?_) hlow)
    decide
  have hspacing := spacing_eq_of_le hbinade (by rwa [Nat.add_right_comm])
  rw [Nat.add_sub_cancel_left] at hspacing
  obtain ⟨m, hm⟩ := Nat.dvd_of_mod_eq_zero hheld
  rw [hspacing] at hm
  have hpos : 0 < 2 ^ s := Nat.two_pow_pos s
  have hmlow : 2 ^ 53 - 4 < m := by
    rw [hm, Nat.mul_comm] at hlow
    exact Nat.lt_of_mul_lt_mul_left hlow
  have hmhigh : m < 2 ^ 53 := by
    rw [hm, Nat.pow_add, Nat.mul_comm] at hhigh
    exact Nat.lt_of_mul_lt_mul_right hhigh
  have hcases : m = 2 ^ 53 - 3 ∨ m = 2 ^ 53 - 2 ∨ m = 2 ^ 53 - 1 := by
    omega
  rw [hm, Nat.mul_comm]
  rcases hcases with rfl | rfl | rfl
  · exact .inl rfl
  · exact .inr (.inl rfl)
  · exact .inr (.inr rfl)

section Whole

variable {digits k : Nat}

theorem mul_value_le_of_printed (hd : Printed units ⟨digits, k⟩) :
    (1 <<< 53) * (digits * (unitsPerOne * Nat.pow 10 k)) ≤ (1 <<< 53 + 1) * units := by
  have hnear : Near units (digits * placeNum k) (placeDen k) := hd.near
  rw [placeNum_natCast, placeDen_natCast] at hnear
  apply mul_near_le hnear
  calc unitsPerOne ≤ unitsPerOne * Nat.pow 10 k :=
        Nat.le_mul_of_pos_right _ (Nat.pow_pos (by decide))
    _ ≤ digits * (unitsPerOne * Nat.pow 10 k) := Nat.le_mul_of_pos_left _ hd.digits_pos

theorem le_maxPower_of_printed (hbounded : units < overflow) (hd : Printed units ⟨digits, k⟩) :
    k ≤ maxPower := by
  by_contra hgt
  have hmost : (1 <<< 53 + 1) * overflow <
      (1 <<< 53) * (unitsPerOne * Nat.pow 10 (maxPower + 1)) := by
    decide +kernel
  have hlarge : maxPower + 1 ≤ k := Nat.not_le.1 hgt
  generalize maxPower + 1 = past at hmost hlarge
  refine absurd hmost (Nat.not_lt.2 ?_)
  calc (1 <<< 53) * (unitsPerOne * Nat.pow 10 past)
      ≤ (1 <<< 53) * (unitsPerOne * Nat.pow 10 k) :=
        Nat.mul_le_mul_left _ (Nat.mul_le_mul_left _ (Nat.pow_le_pow_right (by decide) hlarge))
    _ ≤ (1 <<< 53) * (digits * (unitsPerOne * Nat.pow 10 k)) :=
        Nat.mul_le_mul_left _ (Nat.le_mul_of_pos_left _ hd.digits_pos)
    _ ≤ (1 <<< 53 + 1) * units := mul_value_le_of_printed hd
    _ ≤ (1 <<< 53 + 1) * overflow := Nat.mul_le_mul_left _ (Nat.le_of_lt hbounded)

theorem digits_le_largest (h : digits < 10 ^ 17) : digits * unitsPerOne ≤ largest :=
  Nat.le_trans (Nat.mul_le_mul_right unitsPerOne (Nat.le_of_lt h))
    (pow_ten_le_largest (show 17 ≤ maxPower by decide))

/-- The product that reads the decimal of a number is finite, but for the last numbers. -/
theorem isFinite_mul_of_printed (hd : Printed units ⟨digits, k⟩)
    (hunits : units ≤ (1 <<< 53 - 4) <<< 2045) (hbounded : units < overflow) :
    (ofNat digits * ofNat (Nat.pow 10 k)).isFinite = true := by
  have hdigits : 0 < digits := hd.digits_pos
  have hpow : 0 < Nat.pow 10 k := Nat.pow_pos (by decide)
  obtain ⟨a, aheld, haeq, -, ha⟩ := exists_ofNat hdigits (digits_le_largest hd.digits_lt)
  obtain ⟨p, pheld, hpeq, -, hp⟩ :=
    exists_ofNat hpow (pow_ten_le_largest (le_maxPower_of_printed hbounded hd))
  rw [haeq, hpeq]
  refine isFinite_of_ofExact unitsPerOne_pos
    (mul_le_of_roundings ?_ hunits (mul_value_le_of_printed hd) ha hp)
  ring

end Whole

theorem isFinite_byPowers_of_last (held : Held units) (hunits : (1 <<< 53 - 4) <<< 2045 < units) :
    ((shortest .even units).byPowers).isFinite = true := by
  rcases eq_of_last held.aligned hunits held.bounded with rfl | rfl | rfl
  · decide +kernel
  · decide +kernel
  · decide +kernel

theorem isFinite_byPowers_of_neg {d : Decimal} (hdigits : d.digits < 10 ^ 17)
    (hneg : d.exponent < 0) (hexp : -417 < d.exponent) : d.byPowers.isFinite = true := by
  have hpower : (maxPower : Int) = 308 := rfl
  have hwhole : (ofNat d.digits).isFinite = true :=
    isFinite_of_ofExact Nat.one_pos (by
      rw [Nat.mul_one]
      exact digits_le_largest hdigits)
  have hdiv {x : Binary64} {k : Nat} (hx : x.isFinite = true) (hk : k ≤ maxPower) :
      (x / ofNat (Nat.pow 10 k)).isFinite = true :=
    isFinite_div_ofNat hx (Nat.pow_pos (by decide)) (pow_ten_le_largest hk)
  rw [Decimal.byPowers, if_neg (by omega)]
  split_ifs with hone
  · exact hdiv hwhole (by omega)
  · exact hdiv (hdiv hwhole (Nat.le_refl _)) (by omega)

/-! ## Reading what is printed -/

/-- A decimal that is read without passing the end of the format. -/
structure Readable (d : Decimal) : Prop where
  digits_lt : d.digits < 10 ^ 17
  exponent_gt : -417 < d.exponent
  exponent_le : d.exponent ≤ maxPower
  digits_pos : d.exponent < -maxPower → 0 < d.digits
  finite : d.byPowers.isFinite = true

theorem readable_tenths {digits : Nat} (h : digits < 10 ^ 17) : Readable ⟨digits, -1⟩ where
  digits_lt := h
  exponent_gt := show (-417 : Int) < -1 by decide
  exponent_le := show (-1 : Int) ≤ maxPower by decide
  digits_pos hfar := absurd (show (-1 : Int) < -maxPower from hfar) (by decide)
  finite := isFinite_byPowers_of_neg h (show (-1 : Int) < 0 by decide)
    (show (-417 : Int) < -1 by decide)

theorem readable_shortest (hpos : 0 < units) (held : Held units) :
    Readable (shortest .even units) := by
  have hd := printed_shortest .even hpos
  have hlast := isFinite_byPowers_of_last held
  generalize shortest .even units = d at hd hlast
  obtain ⟨digits, exponent⟩ := d
  by_cases hexp : 0 ≤ exponent
  · obtain ⟨k, rfl⟩ := Int.eq_ofNat_of_zero_le hexp
    refine ⟨hd.digits_lt, hd.exponent_gt,
      Int.ofNat_le.2 (le_maxPower_of_printed held.bounded hd), fun _ => hd.digits_pos, ?_⟩
    by_cases hunits : units ≤ (1 <<< 53 - 4) <<< 2045
    · rw [Decimal.byPowers, if_pos hexp]
      exact isFinite_mul_of_printed hd hunits held.bounded
    · exact hlast (Nat.not_le.1 hunits)
  · have hneg : exponent < 0 := Int.not_le.1 hexp
    exact ⟨hd.digits_lt, hd.exponent_gt, Int.le_trans (Int.le_of_lt hneg) (by decide),
      fun _ => hd.digits_pos, isFinite_byPowers_of_neg hd.digits_lt hneg hd.exponent_gt⟩

theorem readable_spelled {d : Decimal} (hd : Readable d) : Readable d.spelled := by
  rw [Decimal.spelled]
  split_ifs with h
  · obtain ⟨hexp, hpoint⟩ := h
    have hfew : d.digits * 10 ^ d.exponent.toNat < 10 ^ 16 :=
      calc d.digits * 10 ^ d.exponent.toNat
          < 10 ^ Decimal.width d.digits * 10 ^ d.exponent.toNat :=
            Nat.mul_lt_mul_of_pos_right (Decimal.lt_pow_width d.digits) (Nat.pow_pos (by decide))
        _ = 10 ^ (Decimal.width d.digits + d.exponent.toNat) := (Nat.pow_add _ _ _).symm
        _ ≤ 10 ^ 16 := Nat.pow_le_pow_right (by decide) (by omega)
    exact readable_tenths (by omega)
  · exact hd

theorem not_same_zero {n : Nat} (hpos : 0 < n) (h : n * unitsPerOne ≤ largest) :
    (ofNat n).same 0 = false := by
  obtain ⟨m, held, heq, hone, -⟩ := exists_ofNat hpos h
  have hm : 0 < m := Nat.lt_of_lt_of_le unitsPerOne_pos hone
  rw [heq, same, Bool.and_eq_false_iff]
  left
  rw [decide_eq_false_iff_not, le_iff]
  rintro ⟨a, b, ha, hb, hab⟩
  rw [zero_eq, rank, Nat.zero_mul, Option.some.injEq] at hb
  rw [rank, Option.some.injEq] at ha
  subst ha hb
  exact absurd (Int.ofNat_le.1 hab) (Nat.not_le.2 hm)

/-- Scaling the digits of a decimal is one product or quotient, or two quotients. -/
theorem scale_eq {d : Decimal} (hd : Readable d) :
    JsonScan.scale (d.exponent.natAbs / maxPower + 1) (ofNat d.digits) d.exponent =
      some d.byPowers := by
  have hpower : maxPower = 308 := rfl
  have hleast := hd.exponent_gt
  have hmost := hd.exponent_le
  have hfinite := hd.finite
  rw [Decimal.byPowers] at hfinite ⊢
  by_cases hexp : 0 ≤ d.exponent
  · rw [if_pos hexp] at hfinite ⊢
    rw [JsonScan.scale, if_pos (by omega), if_pos hexp]
    exact if_pos hfinite
  by_cases hnear : -maxPower ≤ d.exponent
  · rw [if_neg hexp, if_pos hnear, JsonScan.scale, if_pos (by omega), if_neg hexp]
  · have hsteps : d.exponent.natAbs / maxPower + 1 = 2 := by
      rw [hpower]
      omega
    have hdigits := digits_le_largest hd.digits_lt
    rw [if_neg hexp, if_neg hnear, hsteps, JsonScan.scale, if_neg (by omega),
      if_neg (by simp [not_same_zero (hd.digits_pos (by omega)) hdigits]), if_neg hexp,
      JsonScan.scale, if_pos (by omega), if_neg (by omega)]

theorem real_eq {d : Decimal} (hd : Readable d) (negative : Bool) (rest : Bytes) :
    JsonScan.real negative d.digits d.exponent rest =
      .ok (.real (if negative then -d.byPowers else d.byPowers), rest) := by
  rw [JsonScan.real, scale_eq hd]

/-! ## Where nothing is lost -/

theorem held_pow_ten {k : Nat} (hk : k ≤ 22) : Held (Nat.pow 10 k * unitsPerOne) := by
  have hfives : Nat.pow 5 k ≤ 1 <<< 53 :=
    Nat.le_trans (Nat.pow_le_pow_right (by decide) hk) (by decide)
  have hshift : Nat.pow 10 k * unitsPerOne = Nat.pow 5 k <<< (k + 1074) := by
    show 10 ^ k * unitsPerOne = 5 ^ k <<< (k + 1074)
    rw [unitsPerOne, Nat.one_shiftLeft, Nat.shiftLeft_eq, Nat.pow_add, ← Nat.mul_assoc,
      ← Nat.mul_pow]
  rw [hshift]
  exact held_shiftLeft hfives (by omega)

/-- With digits and a power that the format holds, only the result is rounded. -/
theorem byPowers_eq_ofExact {d : Decimal} (hdigits : d.digits ≤ 1 <<< 53)
    (hexp : d.exponent.natAbs ≤ 22) :
    d.byPowers = ofExact false (d.digits * placeNum d.exponent) (placeDen d.exponent) := by
  have hpower : (maxPower : Int) = 308 := rfl
  have held := held_pow_ten hexp
  have hpow : ofNat (Nat.pow 10 d.exponent.natAbs) = .finite false _ held := ofExact_of_held held
  rw [Decimal.byPowers, hpow]
  by_cases hpos : 0 ≤ d.exponent
  · obtain ⟨k, hk⟩ := Int.eq_ofNat_of_zero_le hpos
    rw [if_pos hpos, ofNat_mul hdigits, hk, placeNum_natCast, placeDen_natCast,
      Int.natAbs_natCast, Nat.mul_comm unitsPerOne]
  · obtain ⟨k, hk⟩ : ∃ k : Nat, d.exponent = -k := ⟨d.exponent.natAbs, by omega⟩
    have hpow : 0 < Nat.pow 10 k := Nat.pow_pos (by decide)
    rw [if_neg hpos, if_pos (by omega), ofNat_eq hdigits]
    show (if Nat.pow 10 d.exponent.natAbs * unitsPerOne = 0 then _
      else ofExact (false != false) (d.digits * unitsPerOne * unitsPerOne)
        (Nat.pow 10 d.exponent.natAbs * unitsPerOne)) = _
    rw [hk, Int.natAbs_neg, Int.natAbs_natCast, placeNum_neg, placeDen_neg,
      if_neg (Nat.mul_pos hpow unitsPerOne_pos).ne', ofExact_mul_right unitsPerOne_pos]
    rfl

theorem near_spelled {d : Decimal} (h : Near units (d.digits * placeNum d.exponent)
    (placeDen d.exponent)) :
    Near units (d.spelled.digits * placeNum d.spelled.exponent) (placeDen d.spelled.exponent) := by
  rw [Decimal.spelled]
  split_ifs with hwhole
  · obtain ⟨k, hk⟩ := Int.eq_ofNat_of_zero_le hwhole.1
    refine h.of_eq (placeDen_pos _) (placeDen_pos _) ?_
    show d.digits * placeNum d.exponent * placeDen (-(1 : Nat)) =
      10 * (d.digits * 10 ^ d.exponent.toNat) * placeNum (-(1 : Nat)) * placeDen d.exponent
    rw [hk, placeNum_natCast, placeDen_natCast, placeNum_neg, placeDen_neg, Int.toNat_natCast,
      show Nat.pow 10 k = 10 ^ k from rfl, show Nat.pow 10 1 = 10 from rfl]
    ring
  · exact h

/-- A number is read back as it was where the format holds the digits and the power of ten that
stand for it. -/
theorem reread_eq {negative : Bool} {held : Held units}
    (h : 0 < units → (shortest .even units).spelled.digits ≤ 1 <<< 53 ∧
      (shortest .even units).spelled.exponent.natAbs ≤ 22) :
    reread (.finite negative units held) = .finite negative units held := by
  rw [reread]
  by_cases hzero : units = 0
  · exact if_pos hzero
  · have hpos : 0 < units := Nat.pos_of_ne_zero hzero
    obtain ⟨hdigits, hexp⟩ := h hpos
    have hround := roundMagnitude_of_near held.aligned (placeDen_pos _)
      (near_spelled (printed_shortest .even hpos).near)
    have hvalue : (shortest .even units).spelled.byPowers = .finite false units held := by
      rw [byPowers_eq_ofExact hdigits hexp, ofExact_of_lt (by rw [hround]; exact held.bounded)]
      simp only [hround]
    rw [if_neg hzero, hvalue]
    cases negative <;> rfl

end Binary64

end HeapLatency
