import HeapLatency.Proofs.Bins.WholeRanges
import Mathlib.Data.Nat.Prime.Basic

/-!
# What rounding up reaches

Rounding up to a multiple of a base is meant to leave a value where it is or to raise it, and to
leave multiples where they are. Quotient and product are rounded, so both fail. The result falls
short of the value by one number where the quotient is rounded down to a whole number, and is
nothing where the quotient is lost. It is raised once more where the quotient of the result comes
out above the whole number that it was multiplied by. Where the product is exact, neither happens.
-/

namespace HeapLatency.Binary64

/-! ## Whole quotients -/

variable {quotient units base : Nat}

theorem basesFor_mul_of_whole (h : quotient % unitsPerOne = 0) :
    basesFor quotient * unitsPerOne = quotient := by
  rw [basesFor, if_neg (not_not_intro h)]
  exact Nat.div_mul_cancel (Nat.dvd_of_mod_eq_zero h)

/-- From `2 ^ 52` on all numbers are whole. -/
theorem basesFor_le_of_not_whole (haligned : quotient % spacing quotient = 0)
    (h : quotient % unitsPerOne ≠ 0) : basesFor quotient ≤ 1 <<< 52 := by
  have hone : spacing (1 <<< 52 * unitsPerOne) = unitsPerOne := by decide +kernel
  apply (ceiling_basesFor quotient).le
  by_contra hlarge
  have hspacing := spacing_dvd_spacing (Nat.le_of_not_le hlarge)
  rw [hone] at hspacing
  exact h (Nat.mod_eq_zero_of_dvd (hspacing.trans (Nat.dvd_of_mod_eq_zero haligned)))

theorem aligned_basesFor_mul (haligned : quotient % spacing quotient = 0) :
    basesFor quotient * unitsPerOne % spacing (basesFor quotient * unitsPerOne) = 0 := by
  by_cases hwhole : quotient % unitsPerOne = 0
  · exact (basesFor_mul_of_whole hwhole).symm ▸ haligned
  · have hfew := basesFor_le_of_not_whole haligned hwhole
    exact (held_whole (Nat.le_trans hfew (by decide))).aligned

/-! ## Magnitudes -/

/-- The quotient of two magnitudes. -/
def quotientOf (units base : Nat) : Nat := roundMagnitude (units * unitsPerOne) base

/-- How many bases a magnitude is rounded up to. -/
def basesOf (units base : Nat) : Nat := basesFor (quotientOf units base)

/-- So many bases. -/
def multipleOf (count base : Nat) : Nat := roundMagnitude (count * base) 1

variable {count held : Nat}

theorem aligned_quotientOf (units base : Nat) :
    quotientOf units base % spacing (quotientOf units base) = 0 := aligned_roundMagnitude _ _

theorem quotientOf_le_quotientOf (hpos : 0 < base) (h : units ≤ held) :
    quotientOf units base ≤ quotientOf held base :=
  roundMagnitude_le_of_num_le hpos (Nat.mul_le_mul_right unitsPerOne h)

theorem ceiling_basesOf (units base : Nat) :
    Ceiling (quotientOf units base) unitsPerOne (basesOf units base) := ceiling_basesFor _

theorem quotientOf_multipleOf (hpos : 0 < base)
    (hcount : count * unitsPerOne % spacing (count * unitsPerOne) = 0)
    (hexact : count * base % spacing (count * base) = 0) :
    quotientOf (multipleOf count base) base = count * unitsPerOne := by
  rw [multipleOf, roundMagnitude_one hexact, quotientOf,
    show count * base * unitsPerOne = count * unitsPerOne * base by ring]
  exact roundMagnitude_of_aligned hpos hcount

theorem aligned_two_pow_mul (hbase : base % spacing base = 0) (k : Nat) :
    2 ^ k * base % spacing (2 ^ k * base) = 0 := by
  rcases Nat.eq_zero_or_pos base with rfl | hpos
  · rfl
  have hne : 2 ^ k * base ≠ 0 := (Nat.mul_pos (Nat.two_pow_pos k) hpos).ne'
  have hlog : (2 ^ k * base).log2 < k + (base.log2 + 1) := by
    rw [Nat.log2_lt hne, Nat.pow_add]
    exact Nat.mul_lt_mul_of_pos_left Nat.lt_log2_self (Nat.two_pow_pos k)
  have hspacing : spacing (2 ^ k * base) ∣ 2 ^ k * spacing base := by
    rw [spacing_eq_two_pow, spacing_eq_two_pow, ← Nat.pow_add]
    exact pow_dvd_pow 2 (by omega)
  exact Nat.mod_eq_zero_of_dvd
    (hspacing.trans (Nat.mul_dvd_mul_left _ (Nat.dvd_of_mod_eq_zero hbase)))

/-! ## Whole quotients of magnitudes -/

theorem basesOf_mul (hwhole : quotientOf units base % unitsPerOne = 0) :
    basesOf units base * unitsPerOne = quotientOf units base := basesFor_mul_of_whole hwhole

/-- Where the quotient is whole, the result has the same quotient. The result is nearer to the exact
product than the magnitude is, as that is one that the result could have been. -/
theorem quotientOf_of_whole (hpos : 0 < base) (hunits : units % spacing units = 0)
    (hbase : base % spacing base = 0) (hwhole : quotientOf units base % unitsPerOne = 0) :
    quotientOf (multipleOf (basesOf units base) base) base = quotientOf units base := by
  have hquotient := basesOf_mul hwhole
  have haligned := aligned_quotientOf units base
  by_cases hgap : gapBelow (quotientOf units base) = 2 * spacing (quotientOf units base)
  · refine roundMagnitude_eq_of_dist_le hpos hgap ?_
    have hregroup : quotientOf units base * base = basesOf units base * base * unitsPerOne := by
      rw [← hquotient]
      ring
    have hnear : Nat.dist (multipleOf (basesOf units base) base * 1) (basesOf units base * base) ≤
        Nat.dist (units * 1) (basesOf units base * base) :=
      dist_roundMagnitude_le Nat.one_pos hunits
    rw [Nat.mul_one, Nat.mul_one, Nat.dist_comm, Nat.dist_comm units] at hnear
    show Nat.dist (quotientOf units base * base) _ ≤ Nat.dist (quotientOf units base * base) _
    rw [hregroup, Nat.dist_mul_right, Nat.dist_mul_right]
    exact Nat.mul_le_mul_right unitsPerOne hnear
  · -- the quotient is a power of two, and the product is exact
    have hpower : basesOf units base * unitsPerOne = 2 ^ (quotientOf units base).log2 := by
      rw [hquotient, ← Nat.one_shiftLeft]
      by_contra hnot
      exact hgap (if_neg fun hpower => hnot hpower.1)
    obtain ⟨k, -, hk⟩ := (Nat.dvd_prime_pow Nat.prime_two).1 (Dvd.intro _ hpower)
    rw [quotientOf_multipleOf hpos (hquotient.symm ▸ haligned) (hk ▸ aligned_two_pow_mul hbase k),
      hquotient]

/-- Where the quotient is whole, no magnitude lies between the exact product and what is rounded
up. -/
theorem not_lt_of_whole (hpos : 0 < base) (hunits : units % spacing units = 0)
    (hheld : held % spacing held = 0) (hwhole : quotientOf units base % unitsPerOne = 0)
    (hsome : 0 < quotientOf units base) (hproduct : basesOf units base * base ≤ held) :
    ¬held < units := by
  intro hlt
  have hone := unitsPerOne_pos
  have hquotient := basesOf_mul hwhole
  have hnext := add_spacing_le hheld hunits hlt
  have hregroup : quotientOf units base * base = basesOf units base * base * unitsPerOne := by
    rw [← hquotient]
    ring
  have hlarge : 1 <<< 52 ≤ quotientOf units base :=
    Nat.le_trans (by decide +kernel) (Nat.le_of_dvd hsome (Nat.dvd_of_mod_eq_zero hwhole))
  have hbelow : quotientOf units base * base + spacing held * unitsPerOne ≤
      units * unitsPerOne := by
    rw [hregroup, ← Nat.add_mul]
    exact Nat.mul_le_mul_right _ (Nat.le_trans (Nat.add_le_add_right hproduct _) hnext)
  have hwide : quotientOf units base * base < 1 <<< 53 * (spacing held * unitsPerOne) := by
    rw [hregroup, ← Nat.mul_assoc]
    refine Nat.mul_lt_mul_of_pos_right (Nat.lt_of_le_of_lt hproduct ?_) hone
    rw [Nat.mul_comm, Nat.one_shiftLeft]
    exact units_lt_spacing_mul held
  have hraised : quotientOf units base < quotientOf units base :=
    lt_roundMagnitude_of_gap hpos hlarge hbelow hwide
  exact Nat.lt_irrefl _ hraised

/-! ## Quotients between whole numbers -/

theorem aligned_basesOf_mul (units base : Nat) :
    basesOf units base * unitsPerOne % spacing (basesOf units base * unitsPerOne) = 0 :=
  aligned_basesFor_mul (aligned_quotientOf units base)

theorem le_multipleOf (hpos : 0 < base) (hunits : units % spacing units = 0)
    (hpart : quotientOf units base % unitsPerOne ≠ 0) :
    units ≤ multipleOf (basesOf units base) base := by
  apply le_roundMagnitude Nat.one_pos hunits
  rw [Nat.mul_one]
  by_contra hbelow
  have hreached : basesOf units base * unitsPerOne ≤ quotientOf units base := by
    apply le_roundMagnitude hpos (aligned_basesOf_mul units base)
    rw [Nat.mul_right_comm]
    exact Nat.mul_le_mul_right _ (Nat.le_of_not_le hbelow)
  have heq := Nat.le_antisymm (ceiling_basesOf units base).le_mul hreached
  exact hpart (by rw [heq, Nat.mul_mod_left])

/-- As many bases are taken for the result as for the magnitude, unless its quotient comes out
above them. -/
theorem basesOf_multipleOf_of_le (hpos : 0 < base) (hunits : units % spacing units = 0)
    (hpart : quotientOf units base % unitsPerOne ≠ 0)
    (hle : quotientOf (multipleOf (basesOf units base) base) base ≤
      basesOf units base * unitsPerOne) :
    basesOf (multipleOf (basesOf units base) base) base = basesOf units base := by
  have hraised := quotientOf_le_quotientOf hpos (le_multipleOf hpos hunits hpart)
  refine (ceiling_basesOf _ base).unique fun i => ?_
  constructor
  · exact fun hi => Nat.lt_of_lt_of_le ((ceiling_basesOf units base i).1 hi) hraised
  · exact fun hi => Nat.lt_of_mul_lt_mul_right (Nat.lt_of_lt_of_le hi hle)

/-- Otherwise the product was not exact, and one more base is taken, which is another magnitude. -/
theorem basesOf_multipleOf_of_lt (hpos : 0 < base) (hbase : base % spacing base = 0)
    (hpart : quotientOf units base % unitsPerOne ≠ 0)
    (hlt : basesOf units base * unitsPerOne <
      quotientOf (multipleOf (basesOf units base) base) base) :
    basesOf (multipleOf (basesOf units base) base) base = basesOf units base + 1 ∧
      multipleOf (basesOf units base) base < multipleOf (basesOf units base + 1) base := by
  have hfew : basesOf units base ≤ 1 <<< 52 :=
    basesFor_le_of_not_whole (aligned_quotientOf units base) hpart
  have hcount := aligned_basesOf_mul units base
  generalize basesOf units base = count at hlt hfew hcount ⊢
  have hinexact : count * base % spacing (count * base) ≠ 0 := fun hexact =>
    absurd (quotientOf_multipleOf hpos hcount hexact) hlt.ne'
  have hless : count < 1 <<< 52 := by
    refine Nat.lt_of_le_of_ne hfew ?_
    rintro rfl
    exact hinexact (Nat.one_shiftLeft 52 ▸ aligned_two_pow_mul hbase 52)
  have hlarge : 1 <<< 52 ≤ count * base := by
    by_contra hsmall
    refine hinexact ?_
    rw [spacing_eq_one (Nat.lt_trans (Nat.not_le.1 hsmall) (by decide)), Nat.mod_one]
  have hgap := spacing_mul_le hlarge
  have hbelow : count * base < 1 <<< 52 * base := Nat.mul_lt_mul_of_pos_right hless hpos
  have hnext : (count + 1) * base ≤ 1 <<< 52 * base := Nat.mul_le_mul_right base hless
  have hsucc : (count + 1) * base = count * base + base := Nat.succ_mul count base
  have hnextGap := spacing_mul_le (show 1 <<< 52 ≤ (count + 1) * base by omega)
  have herror := two_mul_roundMagnitude_mul_le (count * base) 1
  have hnextError := two_mul_le_roundMagnitude_mul Nat.one_pos ((count + 1) * base)
  rw [Nat.div_one, Nat.one_mul, Nat.mul_one] at herror hnextError
  -- the product is off by less than half a base, and the next one by no more than that
  have hlow : 2 * multipleOf count base < 2 * (count * base) + base := by
    rw [multipleOf]
    omega
  have hhigh : 2 * (count * base) + base ≤ 2 * multipleOf (count + 1) base := by
    rw [multipleOf]
    omega
  have hfits : count + 1 ≤ 1 <<< 53 := Nat.le_trans hless (by decide)
  refine ⟨(ceiling_basesOf _ base).unique (.of_between hlt ?_), by omega⟩
  apply roundMagnitude_le hpos (held_whole hfits).aligned
  rw [Nat.mul_right_comm]
  exact Nat.mul_le_mul_right unitsPerOne (by omega)

theorem basesOf_multipleOf (hpos : 0 < base) (hunits : units % spacing units = 0)
    (hbase : base % spacing base = 0) :
    (quotientOf (multipleOf (basesOf units base) base) base ≤ basesOf units base * unitsPerOne ∧
      basesOf (multipleOf (basesOf units base) base) base = basesOf units base) ∨
    (quotientOf units base % unitsPerOne ≠ 0 ∧
      basesOf units base * unitsPerOne < quotientOf (multipleOf (basesOf units base) base) base ∧
      basesOf (multipleOf (basesOf units base) base) base = basesOf units base + 1 ∧
      multipleOf (basesOf units base) base < multipleOf (basesOf units base + 1) base) := by
  by_cases hwhole : quotientOf units base % unitsPerOne = 0
  · have hsame := quotientOf_of_whole hpos hunits hbase hwhole
    refine .inl ⟨Nat.le_of_eq (hsame.trans (basesOf_mul hwhole).symm), ?_⟩
    rw [basesOf, hsame]
    rfl
  · rcases Nat.lt_or_ge (basesOf units base * unitsPerOne)
      (quotientOf (multipleOf (basesOf units base) base) base) with hlt | hle
    · exact .inr ⟨hwhole, hlt, basesOf_multipleOf_of_lt hpos hbase hwhole hlt⟩
    · exact .inl ⟨hle, basesOf_multipleOf_of_le hpos hunits hwhole hle⟩

/-! ## Numbers -/

variable {value divisor : Binary64} {hunits : Held units} {hbase : Held base}

theorem isWhole_finite {negative : Bool} (held : Held units) :
    (finite negative units held).isWhole = true ↔ units % unitsPerOne = 0 := beq_iff_eq

theorem ceil_of_isWhole (h : value.isWhole = true) : value.ceil = value := by
  cases value with
  | finite negative units held =>
    have hwhole := (isWhole_finite held).1 h
    have hkept : units / unitsPerOne * unitsPerOne = units :=
      Nat.div_mul_cancel (Nat.dvd_of_mod_eq_zero hwhole)
    show ofExact negative ((if !negative && units % unitsPerOne != 0 then units / unitsPerOne + 1
      else units / unitsPerOne) * unitsPerOne) 1 = _
    rw [hwhole, bne_self_eq_false, Bool.and_false, if_neg Bool.false_ne_true, hkept,
      ofExact_of_held held]
  | infinite negative => rfl
  | nan => rfl

theorem roundUp_of_isWhole (h : (value / divisor).isWhole = true) :
    value.roundUp divisor = value / divisor * divisor := by
  rw [roundUp, ceil_of_isWhole h]

theorem held_basesOf_mul (h : quotientOf units base < overflow) :
    Held (basesOf units base * unitsPerOne) where
  aligned := aligned_basesOf_mul units base
  bounded := by
    by_cases hwhole : quotientOf units base % unitsPerOne = 0
    · rwa [basesOf_mul hwhole]
    · have hfew := basesFor_le_of_not_whole (aligned_quotientOf units base) hwhole
      exact (held_whole (Nat.le_trans hfew (by decide))).bounded

theorem div_finite_of_lt (hpos : 0 < base) (h : quotientOf units base < overflow) :
    finite false units hunits / finite false base hbase =
      finite false (quotientOf units base) ⟨aligned_quotientOf units base, h⟩ := by
  rw [div_finite hpos]
  exact ofExact_of_lt h

theorem ceil_div_of_lt (hpos : 0 < base) (h : quotientOf units base < overflow) :
    (finite false units hunits / finite false base hbase).ceil =
      finite false (basesOf units base * unitsPerOne) (held_basesOf_mul h) := by
  rw [div_finite_of_lt hpos h, ceil_eq]
  exact ofExact_of_held (held_basesOf_mul h)

theorem roundUp_finite (hpos : 0 < base) (h : quotientOf units base < overflow) :
    (finite false units hunits).roundUp (finite false base hbase) =
      ofExact false (basesOf units base * base) 1 := by
  have hregroup := ofExact_mul_right unitsPerOne_pos false (basesOf units base * base) 1
  rw [Nat.one_mul] at hregroup
  rw [roundUp, ceil_div_of_lt hpos h, mul_finite, Nat.mul_right_comm, hregroup]

theorem lt_of_isFinite_roundUp (hpos : 0 < base)
    (h : ((finite false units hunits).roundUp (finite false base hbase)).isFinite = true) :
    quotientOf units base < overflow := by
  by_contra hle
  have hinfinite : finite false units hunits / finite false base hbase = infinite false := by
    rw [div_finite hpos]
    exact ofExact_of_le (Nat.not_lt.1 hle)
  have hceil : (infinite false).ceil = infinite false := rfl
  rw [roundUp, hinfinite, hceil, infinite_mul_finite hpos] at h
  cases h

theorem exists_of_isFinite_roundUp (hpos : 0 < base)
    (h : ((finite false units hunits).roundUp (finite false base hbase)).isFinite = true) :
    ∃ held, (finite false units hunits).roundUp (finite false base hbase) =
      finite false (multipleOf (basesOf units base) base) held := by
  have hquotient := lt_of_isFinite_roundUp hpos h
  rw [roundUp_finite hpos hquotient] at h ⊢
  by_cases hlt : roundMagnitude (basesOf units base * base) 1 < overflow
  · exact ⟨_, ofExact_of_lt hlt⟩
  · rw [ofExact_of_le (Nat.not_lt.1 hlt)] at h
    cases h

/-! ## What is reached -/

/-- How a number is rounded up. -/
structure Reaches (value base : Binary64) : Prop where
  /-- The result falls short only where the quotient is whole, and so is the product. -/
  lt_iff : value.roundUp base < value ↔
    (value / base).isWhole = true ∧ value / base * base < value
  /-- It falls short by one number, if it is anything at all. -/
  le_of_lt : 0 < value.roundUp base → ∀ x, value.roundUp base < x → value ≤ x
  /-- The result is returned unchanged unless its quotient is above the whole number before. -/
  again_iff : (value.roundUp base).roundUp base = value.roundUp base ↔
    value.roundUp base / base ≤ (value / base).ceil
  /-- Then the next multiple is returned. -/
  next : ¬value.roundUp base / base ≤ (value / base).ceil →
    ∃ n, (value / base).ceil = ofNat n ∧
      (value.roundUp base).roundUp base = ofNat (n + 1) * base
  of_isWhole : (value / base).isWhole = true →
    value.roundUp base / base ≤ (value / base).ceil

theorem reaches_of_eq (hkept : value.roundUp divisor = value)
    (hwhole : (value / divisor).isWhole = true) : Reaches value divisor := by
  have hproduct := roundUp_of_isWhole hwhole
  have hquotient : (value / divisor).isNaN = false := by
    cases hcase : value / divisor with
    | finite negative units held => rfl
    | infinite negative => rfl
    | nan =>
      rw [hcase] at hwhole
      cases hwhole
  have hle : value / divisor ≤ (value / divisor).ceil := by
    rw [ceil_of_isWhole hwhole]
    exact le_refl_of_number hquotient
  constructor
  · rw [← hproduct, hkept]
    exact ⟨fun h => absurd h lt_irrefl, And.right⟩
  · rw [hkept]
    exact fun _ x => Binary64.le_of_lt
  · rw [hkept, hkept]
    exact iff_of_true rfl hle
  · rw [hkept]
    exact fun h => absurd hle h
  · rw [hkept]
    exact fun _ => hle

theorem le_finite_iff {num den : Nat} {hheld : Held held} :
    ofExact false num den ≤ finite false held hheld ↔ roundMagnitude num den ≤ held := by
  by_cases hlt : roundMagnitude num den < overflow
  · rw [ofExact_of_lt hlt, finite_le_finite_iff]
  · have hbounded := hheld.bounded
    rw [ofExact_of_le (Nat.not_lt.1 hlt)]
    refine iff_of_false (fun hle => ?_) (by omega)
    obtain ⟨a, b, ha, hb, hab⟩ := le_iff.1 hle
    cases ha
    cases hb
    exact absurd (Int.ofNat_le.1 hab) (Nat.not_le.2 hbounded)

/-- Between the result and what is rounded up lies no other number, unless the result is zero. -/
theorem le_of_roundUp_lt (hpos : 0 < base)
    (h : ((finite false units hunits).roundUp (finite false base hbase)).isFinite = true)
    (hsome : 0 < (finite false units hunits).roundUp (finite false base hbase)) (x : Binary64)
    (hx : (finite false units hunits).roundUp (finite false base hbase) < x) :
    finite false units hunits ≤ x := by
  obtain ⟨hresult, heq⟩ := exists_of_isFinite_roundUp hpos h
  by_contra hlt
  rw [heq] at hx hsome
  have hbelow : x < finite false units hunits := lt_of_not_le rfl (isNaN_of_lt hx).2 hlt
  obtain ⟨held, hheld, rfl, -⟩ := exists_units (isFinite_of_between rfl hx hbelow rfl)
    (lt_trans hsome hx)
  rw [finite_lt_finite_iff] at hx hbelow
  have hwhole : quotientOf units base % unitsPerOne = 0 := by
    by_contra hpart
    have hle := le_multipleOf hpos hunits.aligned hpart
    omega
  have hquotient : 0 < quotientOf units base := by
    rw [Nat.pos_iff_ne_zero, ← basesOf_mul hwhole]
    intro hzero
    have hbases : basesOf units base = 0 :=
      (Nat.mul_eq_zero.1 hzero).resolve_right unitsPerOne_pos.ne'
    obtain ⟨result, hheld, hunits, hpositive⟩ := exists_units rfl hsome
    rw [finite.injEq, hbases, multipleOf, Nat.zero_mul] at hunits
    rw [← hunits.2] at hpositive
    exact absurd hpositive (by decide)
  refine not_lt_of_whole hpos hunits.aligned hheld.aligned hwhole hquotient ?_ hbelow
  by_contra hproduct
  refine Nat.not_le.2 hx (le_roundMagnitude Nat.one_pos hheld.aligned ?_)
  omega

theorem reaches_finite (hpos : 0 < base)
    (h : ((finite false units hunits).roundUp (finite false base hbase)).isFinite = true) :
    Reaches (finite false units hunits) (finite false base hbase) := by
  have hquotient := lt_of_isFinite_roundUp hpos h
  have hbounded := (held_basesOf_mul hquotient).bounded
  obtain ⟨hresult, heq⟩ := exists_of_isFinite_roundUp hpos h
  have hagain := basesOf_multipleOf hpos hunits.aligned hbase.aligned
  have hle : (finite false units hunits).roundUp (finite false base hbase) /
        finite false base hbase ≤ (finite false units hunits / finite false base hbase).ceil ↔
      quotientOf (multipleOf (basesOf units base) base) base ≤
        basesOf units base * unitsPerOne := by
    rw [heq, div_finite hpos, ceil_div_of_lt hpos hquotient]
    exact le_finite_iff
  constructor
  · by_cases hwhole : (finite false units hunits / finite false base hbase).isWhole = true
    · rw [← roundUp_of_isWhole hwhole]
      exact (and_iff_right hwhole).symm
    · refine iff_of_false (fun hlt => hwhole ?_) fun hboth => hwhole hboth.1
      rw [heq, finite_lt_finite_iff] at hlt
      rw [div_finite_of_lt hpos hquotient, isWhole_finite]
      by_contra hpart
      exact absurd (le_multipleOf hpos hunits.aligned hpart) (Nat.not_le.2 hlt)
  · exact le_of_roundUp_lt hpos h
  · rw [hle]
    rcases hagain with ⟨hbelow, hsame⟩ | ⟨-, habove, hnext, hlt⟩
    · refine iff_of_true ?_ hbelow
      rw [heq, roundUp_finite hpos (Nat.lt_of_le_of_lt hbelow hbounded), hsame]
      exact ofExact_of_lt hresult.bounded
    · refine iff_of_false (fun hsame => ?_) (Nat.not_le.2 habove)
      rw [heq] at hsame
      have hfinite : ((finite false (multipleOf (basesOf units base) base) hresult).roundUp
          (finite false base hbase)).isFinite = true := by
        rw [hsame]
        rfl
      obtain ⟨_, hmagnitude⟩ := exists_of_isFinite_roundUp hpos hfinite
      rw [hsame, finite.injEq, hnext] at hmagnitude
      exact absurd hmagnitude.2 hlt.ne
  · rw [hle, Nat.not_le]
    intro habove
    obtain ⟨hpart, -, hnext, -⟩ := hagain.resolve_left fun hbelow => by omega
    have hfew := basesFor_le_of_not_whole (aligned_quotientOf units base) hpart
    refine ⟨basesOf units base, ?_, ?_⟩
    · rw [div_finite_of_lt hpos hquotient]
      exact ceil_eq _
    · have hfits : basesOf units base + 1 ≤ 1 <<< 53 :=
        Nat.le_trans (Nat.succ_le_succ hfew) (by decide)
      rw [heq, ofNat_mul hfits, roundUp_finite hpos ?_, hnext]
      refine Nat.lt_of_le_of_lt ?_ (held_whole hfits).bounded
      rw [← hnext]
      exact (ceiling_basesOf _ base).le_mul
  · intro hwhole
    rw [div_finite_of_lt hpos hquotient, isWhole_finite] at hwhole
    rw [hle]
    exact (hagain.resolve_right fun hnot => hnot.1 hwhole).1

/-! ## Exact products -/

theorem roundUp_of_eq_mul (hpos : 0 < base) (hcount : count ≤ 1 <<< 53)
    (h : units = count * base) :
    (finite false units hunits).roundUp (finite false base hbase) = finite false units hunits := by
  have hheld := held_whole hcount
  have haligned := hunits.aligned
  rw [h] at haligned
  have hquotient : quotientOf units base = count * unitsPerOne := by
    have hexact := quotientOf_multipleOf hpos hheld.aligned haligned
    rwa [multipleOf, roundMagnitude_one haligned, ← h] at hexact
  have hbases : basesOf units base = count := by
    refine Nat.eq_of_mul_eq_mul_right unitsPerOne_pos ?_
    rw [basesOf_mul (by rw [hquotient, Nat.mul_mod_left]), hquotient]
  rw [roundUp_finite hpos (hquotient ▸ hheld.bounded), hbases]
  subst h
  exact ofExact_of_held hunits

theorem roundUp_whole_reaches {whole result : Nat} {hbase : Held (whole * unitsPerOne)}
    {hresult : Held result} (hpos : 0 < whole) (hsome : 0 < result)
    (hfew : result < 1 <<< 53 * unitsPerOne)
    (h : (finite false units hunits).roundUp (finite false (whole * unitsPerOne) hbase) =
      finite false result hresult) :
    units ≤ result ∧ (finite false result hresult).roundUp
      (finite false (whole * unitsPerOne) hbase) = finite false result hresult := by
  have hscaled : 0 < whole * unitsPerOne := Nat.mul_pos hpos unitsPerOne_pos
  have hmultiple : result = basesOf units (whole * unitsPerOne) * (whole * unitsPerOne) := by
    rw [← Nat.mul_assoc]
    exact roundUp_whole hpos hfew h
  have hfinite : ((finite false units hunits).roundUp
      (finite false (whole * unitsPerOne) hbase)).isFinite = true := by
    rw [h]
    rfl
  obtain ⟨_, hrounded⟩ := exists_of_isFinite_roundUp hscaled hfinite
  rw [h, finite.injEq] at hrounded
  constructor
  · by_cases hwhole : quotientOf units (whole * unitsPerOne) % unitsPerOne = 0
    · refine Nat.not_lt.1 (not_lt_of_whole hscaled hunits.aligned hresult.aligned hwhole ?_
        (Nat.le_of_eq hmultiple.symm))
      rw [← basesOf_mul hwhole]
      rw [hmultiple] at hsome
      exact Nat.mul_pos (Nat.pos_of_mul_pos_right hsome) unitsPerOne_pos
    · rw [hrounded.2]
      exact le_multipleOf hscaled hunits.aligned hwhole
  · refine roundUp_of_eq_mul hscaled (Nat.le_of_lt ?_) hmultiple
    refine Nat.lt_of_mul_lt_mul_right (Nat.lt_of_le_of_lt ?_ hfew)
    rw [hmultiple]
    exact Nat.mul_le_mul_left _ (Nat.le_mul_of_pos_left unitsPerOne hpos)

/-! ## Numbers that are not negative -/

theorem exists_of_nonneg (hfinite : value.isFinite = true) (hnonneg : 0 ≤ value) :
    (∃ units held, value = finite false units held) ∨ ∃ held, value = finite true 0 held := by
  cases value with
  | finite negative units held =>
    cases negative with
    | false => exact .inl ⟨units, held, rfl⟩
    | true =>
      obtain ⟨a, b, ha, hb, hab⟩ := le_iff.1 hnonneg
      rw [rank_zero] at ha
      cases ha
      cases hb
      simp only [signed, if_true] at hab
      obtain rfl : units = 0 := by omega
      exact .inr ⟨held, rfl⟩
  | infinite negative => cases hfinite
  | nan => cases hfinite

theorem value?_finite_false (held : Held units) :
    (finite false units held).value? = some ((units : ℚ) / unitsPerOne) := by
  rw [value?_finite, show signed false units = (units : ℤ) from rfl, Int.cast_natCast]

/-- Rounding up comes within one number of what it is meant for, or loses it altogether: the result
is below the value only where the computed quotient is whole and the product is rounded down. It is
returned unchanged when it is rounded up again, unless the quotient comes out above the whole number
that it was multiplied by. Exact multiples are unchanged, and with a whole base and a result below
`2 ^ 53` the result is not below the value and does not change. -/
theorem roundUp_reaches {value base : Binary64} (hvalue : value.isFinite = true)
    (hnonneg : 0 ≤ value) (hbase : base.isFinite = true) (hpos : 0 < base)
    (hfinite : (value.roundUp base).isFinite = true) :
    Reaches value base ∧
      (∀ count ≤ 1 <<< 53, ∀ factor, base.value? = some factor →
        value.value? = some (count * factor) → value.roundUp base = value) ∧
      ∀ whole ≤ 1 <<< 53, base = ofNat whole → 0 < value.roundUp base →
        value.roundUp base < ofNat (1 <<< 53) →
        value ≤ value.roundUp base ∧
          (value.roundUp base).roundUp base = value.roundUp base := by
  obtain ⟨b, hheld, rfl, hpositive⟩ := exists_units hbase hpos
  rcases exists_of_nonneg hvalue hnonneg with ⟨units, hunits, rfl⟩ | ⟨held, rfl⟩
  · refine ⟨reaches_finite hpositive hfinite, ?_, ?_⟩
    · intro count hcount factor hfactor hproduct
      rw [value?_finite_false, Option.some.injEq] at hfactor hproduct
      apply roundUp_of_eq_mul hpositive hcount
      rw [← hfactor, ← mul_div_assoc, div_left_inj' unitsPerOne_cast_pos.ne'] at hproduct
      exact_mod_cast hproduct
    · intro whole hwhole heq hsome hfew
      rw [ofNat_eq hwhole, finite.injEq] at heq
      obtain ⟨-, rfl⟩ := heq
      obtain ⟨result, hresult, heq, hpos⟩ := exists_units hfinite hsome
      rw [heq, ofNat_eq (by decide), finite_lt_finite_iff] at hfew
      rw [heq, finite_le_finite_iff]
      exact roundUp_whole_reaches (Nat.pos_of_mul_pos_right hpositive) hpos hfew heq
  · -- a zero is a multiple of everything
    obtain ⟨_, hzero⟩ : ∃ hresult, (finite true 0 held).roundUp (finite false b hheld) =
        finite true 0 hresult := roundUp_zero rfl hpositive
    refine ⟨reaches_of_eq hzero ?_, fun _ _ _ _ _ => hzero, fun _ _ _ hsome _ => ?_⟩
    · obtain ⟨hquotient, heq⟩ := ofExact_zero true hpositive
      rw [div_finite hpositive, Nat.zero_mul, heq]
      rfl
    · rw [hzero] at hsome
      obtain ⟨_, _, heq, -⟩ := exists_units rfl hsome
      cases heq

theorem roundUp_reaches_sample :
    (250 : Binary64) ≤ (250 : Binary64).roundUp 100 ∧
      ((250 : Binary64).roundUp 100).roundUp 100 = (250 : Binary64).roundUp 100 ∧
      (300 : Binary64).roundUp 100 = 300 := by
  have hbase : (100 : Binary64).isFinite = true ∧ (0 : Binary64) < 100 := by decide +kernel
  have hlower : (250 : Binary64).isFinite = true ∧ (0 : Binary64) ≤ 250 := by decide +kernel
  have hupper : (300 : Binary64).isFinite = true ∧ (0 : Binary64) ≤ 300 := by decide +kernel
  have hraised := roundUp_reaches hlower.1 hlower.2 hbase.1 hbase.2 (by decide +kernel)
  have hkept := roundUp_reaches hupper.1 hupper.2 hbase.1 hbase.2 (by decide +kernel)
  obtain ⟨hle, hagain⟩ := hraised.2.2 100 (by decide) rfl (by decide +kernel) (by decide +kernel)
  refine ⟨hle, hagain, hkept.2.1 3 (by decide) 100 (value?_ofNat (by decide)) ?_⟩
  have hvalue : (300 : Binary64).value? = some ((300 : Nat) : ℚ) := value?_ofNat (by decide)
  rw [hvalue]
  norm_num

/-- With the base 1.2 the value 7.2 has the quotient six, and six times the base is rounded down to
the number before 7.2. The result 8.4 for eight is seven bases, but its quotient is a little more
than seven when computed, so rounding it up again adds a base. -/
theorem roundUp_misses :
    (72 / 10 : Binary64).roundUp (12 / 10) < 72 / 10 ∧
      (8 : Binary64).roundUp (12 / 10) = 84 / 10 ∧
      ((8 : Binary64).roundUp (12 / 10)).roundUp (12 / 10) = 96 / 10 ∧
      ¬∀ value base : Binary64, value.isFinite = true → 0 ≤ value → base.isFinite = true →
        0 < base → (value.roundUp base).isFinite = true →
        value ≤ value.roundUp base ∧
          (value.roundUp base).roundUp base = value.roundUp base := by
  have hshort : (72 / 10 : Binary64).roundUp (12 / 10) < 72 / 10 := by decide +kernel
  refine ⟨hshort, by decide +kernel, by decide +kernel, fun hclaim => ?_⟩
  obtain ⟨hle, -⟩ := hclaim (72 / 10) (12 / 10) (by decide +kernel) (by decide +kernel)
    (by decide +kernel) (by decide +kernel) (by decide +kernel)
  exact not_le_of_lt hshort hle

end HeapLatency.Binary64
