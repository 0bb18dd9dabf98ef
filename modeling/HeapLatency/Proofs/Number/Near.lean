import HeapLatency.Number.Shortest
import HeapLatency.Proofs.Number.Arithmetic

/-!
# Quotients near a number

A quotient that lies between the midpoints around a magnitude of the format is rounded to that
magnitude. The midpoints themselves count only where the significand is even. Below a power of
two the format is finer, so there the midpoint is nearer.
-/

namespace HeapLatency

/-- The only whole number within half a unit of a quotient, a tie going to the even one. -/
theorem nearestEven_eq {num den m : Nat} (hden : 0 < den)
    (hbelow : 2 * (m * den) ≤ 2 * num + den) (habove : 2 * num ≤ 2 * (m * den) + den)
    (hodd : m % 2 = 1 → 2 * (m * den) < 2 * num + den ∧ 2 * num < 2 * (m * den) + den) :
    nearestEven num den = m := by
  have hsplit : num / den * den + num % den = num := by
    rw [Nat.mul_comm]
    exact Nat.div_add_mod num den
  have hrest : num % den < den := Nat.mod_lt num hden
  simp only [nearestEven]
  generalize num / den = whole at hsplit ⊢
  generalize num % den = rest at hsplit hrest ⊢
  rcases Nat.lt_trichotomy whole m with hlt | rfl | hgt
  · -- the quotient lies below, so it has to be rounded up
    obtain ⟨k, rfl⟩ : ∃ k, m = whole + 1 + k := ⟨m - whole - 1, by omega⟩
    have hm : (whole + 1 + k) * den = whole * den + den + k * den := by ring
    rw [hm] at hbelow habove hodd
    have hk : k * den = 0 := by
      rcases Nat.eq_zero_or_pos k with rfl | hpos
      · exact Nat.zero_mul den
      · have := Nat.le_mul_of_pos_left den hpos
        omega
    obtain rfl : k = 0 := (Nat.mul_eq_zero.1 hk).resolve_right (by omega)
    rw [if_pos]
    · by_cases htie : 2 * rest = den
      · right
        refine ⟨htie, ?_⟩
        by_contra heven
        have := (hodd (by omega)).1
        omega
      · left
        omega
  · rw [if_neg]
    rintro (hup | ⟨htie, hwhole⟩)
    · omega
    · have := (hodd hwhole).2
      omega
  · have hm : whole * den = m * den + (whole - m) * den := by
      rw [← Nat.add_mul]
      congr 1
      omega
    have := Nat.le_mul_of_pos_left den (show 0 < whole - m by omega)
    omega

namespace Binary64

/-- A quotient, in units, lies between the midpoints around a magnitude. -/
structure Near (units num den : Nat) : Prop where
  below : 4 * (units * den) ≤ 4 * num + gapBelow units * den
  above : 4 * num ≤ 4 * (units * den) + gapAbove units * den
  odd : units / spacing units % 2 = 1 →
    4 * (units * den) < 4 * num + gapBelow units * den ∧
      4 * num < 4 * (units * den) + gapAbove units * den

variable {units num den : Nat}

theorem near_iff : Near units num den ↔
    4 * (units * den) ≤ 4 * num + gapBelow units * den ∧
      4 * num ≤ 4 * (units * den) + gapAbove units * den ∧
      (units / spacing units % 2 = 1 →
        4 * (units * den) < 4 * num + gapBelow units * den ∧
          4 * num < 4 * (units * den) + gapAbove units * den) :=
  ⟨fun h => ⟨h.below, h.above, h.odd⟩, fun h => ⟨h.1, h.2.1, h.2.2⟩⟩

theorem near_mul_right {k : Nat} (hk : 0 < k) :
    Near units (num * k) (den * k) ↔ Near units num den := by
  have hden (a : Nat) : a * (den * k) = a * den * k := (Nat.mul_assoc a den k).symm
  have hfour (a : Nat) : 4 * (a * k) = 4 * a * k := (Nat.mul_assoc 4 a k).symm
  simp only [near_iff, hden, hfour, ← Nat.add_mul, Nat.mul_le_mul_right_iff hk,
    Nat.mul_lt_mul_right hk]

theorem Near.of_eq {num' den' : Nat} (h : Near units num den) (hden : 0 < den) (hden' : 0 < den')
    (heq : num * den' = num' * den) : Near units num' den' := by
  rw [← near_mul_right hden, ← heq, Nat.mul_comm den' den]
  exact (near_mul_right hden').2 h

/-! ## Spacing of a binade -/

theorem units_lt_spacing_mul (units : Nat) : units < spacing units * 2 ^ 53 := by
  rw [spacing, Nat.one_shiftLeft, ← Nat.pow_add]
  exact Nat.lt_of_lt_of_le Nat.lt_log2_self (Nat.pow_le_pow_right (by decide) (by omega))

theorem log2_of_one_lt_spacing (h : 1 < spacing units) :
    52 < units.log2 ∧ 2 ^ units.log2 = spacing units * 2 ^ 52 := by
  rw [spacing, Nat.one_shiftLeft] at h ⊢
  have hlog : 52 < units.log2 := by
    by_contra hle
    rw [show units.log2 - 52 = 0 by omega] at h
    omega
  exact ⟨hlog, by rw [← Nat.pow_add, Nat.sub_add_cancel (by omega)]⟩

theorem spacing_le_gapBelow (units : Nat) : spacing units ≤ gapBelow units := by
  rw [gapBelow]
  split <;> omega

theorem gapBelow_le (units : Nat) : gapBelow units ≤ 2 * spacing units := by
  rw [gapBelow]
  split <;> omega

/-- Magnitudes between two neighbouring powers of two have one spacing. -/
theorem spacing_eq_of_le {n q : Nat} (hlow : 2 ^ n ≤ q) (hhigh : q < 2 ^ (n + 1)) :
    spacing q = 2 ^ (n - 52) := by
  have hq : q ≠ 0 := by
    have := Nat.two_pow_pos n
    omega
  have hlog : q.log2 = n := by
    have hle := (Nat.le_log2 hq).2 hlow
    have hlt := (Nat.log2_lt hq).2 hhigh
    omega
  rw [spacing, hlog, Nat.one_shiftLeft]

theorem spacing_eq_two_pow (units : Nat) : spacing units = 2 ^ (units.log2 - 52) := by
  rw [spacing, Nat.one_shiftLeft]

/-! ## Rounding back -/

/-- A quotient that is near a magnitude from above has its spacing. -/
theorem spacing_eq_of_ge {q : Nat} (hheld : units % spacing units = 0)
    (hlow : units ≤ q) (hhigh : 4 * q ≤ 4 * units + gapAbove units) :
    spacing q = spacing units := by
  have hpos := spacing_pos units
  rw [gapAbove] at hhigh
  by_cases hone : spacing units = 1
  · rw [hone] at hhigh
    rw [show q = units by omega]
  · obtain ⟨hlog, htop⟩ := log2_of_one_lt_spacing (show 1 < spacing units by omega)
    have hne : units ≠ 0 := by
      rintro rfl
      exact absurd hlog (by decide)
    have hpow := spacing_eq_two_pow units
    obtain ⟨m, hm⟩ := Nat.dvd_of_mod_eq_zero hheld
    -- the next multiple of the spacing does not pass the next power of two
    have hbits : m < 2 ^ 53 := by
      have hlt : spacing units * m < spacing units * 2 ^ 53 := by
        rw [← hm]
        exact units_lt_spacing_mul units
      exact Nat.lt_of_mul_lt_mul_left hlt
    have hnext : units + spacing units ≤ 2 ^ (units.log2 + 1) :=
      calc units + spacing units = spacing units * (m + 1) := by
            nth_rewrite 1 [hm]
            ring
        _ ≤ spacing units * 2 ^ 53 := Nat.mul_le_mul_left _ hbits
        _ = spacing units * 2 ^ 52 * 2 := by ring
        _ = 2 ^ (units.log2 + 1) := by rw [← htop, Nat.pow_succ]
    have hself := Nat.log2_self_le hne
    rw [spacing_eq_of_le (Nat.le_trans hself hlow) (by omega), ← hpow]

/-- A quotient that is near a magnitude from below has its spacing, unless the magnitude is a
power of two, below which the spacing is half as long. -/
theorem spacing_of_lt {q : Nat} (hheld : units % spacing units = 0) (hlt : q < units)
    (hlow : 4 * units < 4 * (q + 1) + gapBelow units) (hne : spacing q ≠ spacing units) :
    gapBelow units = spacing units ∧ spacing units = 2 * spacing q := by
  have hgap := gapBelow_le units
  have hfiner : spacing q < spacing units :=
    Nat.lt_of_le_of_ne (Nat.le_of_dvd (spacing_pos units) (spacing_dvd_spacing (by omega))) hne
  have hone : 1 < spacing units := Nat.lt_of_le_of_lt (spacing_pos q) hfiner
  obtain ⟨hlog, htop⟩ := log2_of_one_lt_spacing hone
  have hself : 2 ^ units.log2 ≤ units := Nat.log2_self_le (by omega)
  have hbefore : q < 2 ^ units.log2 := by
    by_contra hge
    have hsame := spacing_eq_of_le (Nat.not_lt.1 hge)
      (Nat.lt_trans hlt Nat.lt_log2_self)
    exact hne (hsame.trans (spacing_eq_two_pow units).symm)
  -- the next multiple of the spacing past the power of two is too far away
  have hpow : units = 2 ^ units.log2 := by
    obtain ⟨m, hm⟩ := Nat.dvd_of_mod_eq_zero hheld
    rw [htop] at hself hbefore ⊢
    obtain hless | heq := Nat.lt_or_eq_of_le hself
    · have hm52 : spacing units * 2 ^ 52 < spacing units * m := by
        rwa [← hm]
      have hstep : spacing units * (2 ^ 52 + 1) ≤ spacing units * m :=
        Nat.mul_le_mul_left _ (Nat.lt_of_mul_lt_mul_left hm52)
      rw [← hm] at hstep
      omega
    · exact heq.symm
  have hhalf : 2 ^ units.log2 = 2 * 2 ^ (units.log2 - 1) := by
    rw [← Nat.pow_succ', Nat.succ_eq_add_one, Nat.sub_add_cancel (by omega)]
  have hspacing : spacing units = 2 * 2 ^ (units.log2 - 1 - 52) := by
    rw [spacing_eq_two_pow, ← Nat.pow_succ']
    congr 1
    omega
  have hpowgap : gapBelow units = spacing units := by
    rw [gapBelow, if_pos ⟨by rw [Nat.one_shiftLeft]; exact hpow, hone⟩]
  have hnear : 2 ^ (units.log2 - 1) ≤ q := by
    omega
  refine ⟨hpowgap, ?_⟩
  rw [hspacing, spacing_eq_of_le hnear (by rw [Nat.pow_succ']; omega)]

/-- A quotient is rounded to the multiple of its spacing within half of that, a tie going to the
even one. -/
theorem roundMagnitude_eq {m : Nat} (hden : 0 < den) (hm : m * spacing (num / den) = units)
    (hbelow : 2 * (units * den) ≤ 2 * num + spacing (num / den) * den)
    (habove : 2 * num ≤ 2 * (units * den) + spacing (num / den) * den)
    (hodd : m % 2 = 1 → 2 * (units * den) < 2 * num + spacing (num / den) * den ∧
      2 * num < 2 * (units * den) + spacing (num / den) * den) :
    roundMagnitude num den = units := by
  have hproduct : m * (den * spacing (num / den)) = units * den :=
    calc m * (den * spacing (num / den)) = m * spacing (num / den) * den := by ring
      _ = units * den := by rw [hm]
  have hround : nearestEven num (den * spacing (num / den)) = m := by
    rw [Nat.mul_comm (spacing (num / den))] at hbelow habove hodd
    apply nearestEven_eq (Nat.mul_pos hden (spacing_pos _))
    · rwa [hproduct]
    · rwa [hproduct]
    · rwa [hproduct]
  rw [roundMagnitude, hround, hm]

/-- Rounding gives back every magnitude that is near. -/
theorem roundMagnitude_of_near (hheld : units % spacing units = 0) (hden : 0 < den)
    (h : Near units num den) : roundMagnitude num den = units := by
  have hgap := Nat.mul_le_mul_right den (gapBelow_le units)
  have hbelow := h.below
  have habove := h.above
  have hodd := h.odd
  obtain ⟨m, hm⟩ := Nat.dvd_of_mod_eq_zero hheld
  rw [Nat.div_eq_of_eq_mul_right (spacing_pos units) hm] at hodd
  rw [gapAbove, Nat.mul_assoc] at habove hodd
  rw [Nat.mul_assoc] at hgap
  by_cases hsame : spacing (num / den) = spacing units
  · rw [← hsame] at hm hgap habove hodd
    apply roundMagnitude_eq hden ((Nat.mul_comm _ _).trans hm.symm)
    · omega
    · omega
    · intro hmod
      have := hodd hmod
      omega
  · -- the quotient lies in the finer binade below a power of two
    have hfloor : num / den * den ≤ num := Nat.div_mul_le_self num den
    have hceil : num < (num / den + 1) * den := Nat.lt_mul_of_div_lt (Nat.lt_succ_self _) hden
    have hlt : num / den < units := by
      by_contra hge
      refine hsame (spacing_eq_of_ge hheld (Nat.not_lt.1 hge) ?_)
      rw [gapAbove]
      apply Nat.le_of_mul_le_mul_right _ hden
      rw [Nat.add_mul, Nat.mul_assoc, Nat.mul_assoc, Nat.mul_assoc]
      omega
    have hlow : 4 * units < 4 * (num / den + 1) + gapBelow units := by
      apply Nat.lt_of_mul_lt_mul_right (a := den)
      rw [Nat.add_mul, Nat.mul_assoc, Nat.mul_assoc]
      omega
    obtain ⟨hpow, htwice⟩ := spacing_of_lt hheld hlt hlow hsame
    have hless : num < units * den := (Nat.div_lt_iff_lt_mul hden).1 hlt
    have hdouble : 2 * m * spacing (num / den) = units :=
      calc 2 * m * spacing (num / den) = 2 * spacing (num / den) * m := by ring
        _ = units := by rw [← htwice, ← hm]
    rw [hpow, htwice, Nat.mul_assoc] at hbelow
    apply roundMagnitude_eq hden hdouble
    · omega
    · omega
    · omega

end Binary64

end HeapLatency
