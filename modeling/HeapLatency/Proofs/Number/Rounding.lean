import HeapLatency.Number.Binary64
import Mathlib.Tactic.Linarith
import Mathlib.Tactic.Ring
import Mathlib.Tactic.SplitIfs

/-!
# Rounding to the format

Where the rounded magnitude of a quotient lies. A magnitude that the format holds separates the
quotients below it from those above, and rounding carries none of them across; the error is at
most half the distance between neighbouring magnitudes.
-/

namespace HeapLatency

/-! ## Whole numbers -/

theorem nearestEven_mul_right {k : Nat} (hk : 0 < k) (num den : Nat) :
    nearestEven (num * k) (den * k) = nearestEven num den := by
  have hdiv : num * k / (den * k) = num / den := Nat.mul_div_mul_right num den hk
  have hmod : num * k % (den * k) = num % den * k := Nat.mul_mod_mul_right k num den
  have hlt : den * k < 2 * (num % den * k) ↔ den < 2 * (num % den) := by
    rw [← Nat.mul_assoc]
    exact Nat.mul_lt_mul_right hk
  have heq : 2 * (num % den * k) = den * k ↔ 2 * (num % den) = den := by
    rw [← Nat.mul_assoc]
    exact Nat.mul_left_inj (Nat.ne_of_gt hk)
  simp only [nearestEven, hdiv, hmod, hlt, heq]

theorem le_nearestEven {num den m : Nat} (hden : 0 < den) (h : m * den ≤ num) :
    m ≤ nearestEven num den :=
  Nat.le_trans ((Nat.le_div_iff_mul_le hden).2 h) (div_le_nearestEven num den)

theorem nearestEven_le {num den m : Nat} (hden : 0 < den) (h : num ≤ m * den) :
    nearestEven num den ≤ m := by
  have hle : num / den ≤ m := Nat.div_le_of_le_mul (by rwa [Nat.mul_comm])
  rcases Nat.lt_or_eq_of_le hle with hlt | heq
  · have := nearestEven_le_div_succ num den
    omega
  · -- the quotient is exact, so nothing is rounded
    have hmod : num % den = 0 := by
      have hdm := Nat.div_add_mod num den
      rw [heq, Nat.mul_comm] at hdm
      omega
    simp only [nearestEven, hmod, heq]
    rw [if_neg (by omega)]

theorem nearestEven_le_nearestEven {num num' den : Nat} (h : num ≤ num') :
    nearestEven num den ≤ nearestEven num' den := by
  have hdiv : num / den ≤ num' / den := Nat.div_le_div_right h
  rcases Nat.lt_or_eq_of_le hdiv with hlt | heq
  · calc nearestEven num den ≤ num / den + 1 := nearestEven_le_div_succ num den
      _ ≤ num' / den := hlt
      _ ≤ nearestEven num' den := div_le_nearestEven num' den
  · -- over the same whole number the greater rest is not rounded down where the smaller is up
    have hrest : num % den ≤ num' % den := by
      have hnum := Nat.div_add_mod num den
      have hnum' := Nat.div_add_mod num' den
      rw [heq] at hnum
      omega
    simp only [nearestEven, heq]
    split_ifs <;> omega

theorem two_mul_nearestEven_mul_le (num den : Nat) :
    2 * (nearestEven num den * den) ≤ 2 * num + den := by
  have hdm := Nat.div_add_mod num den
  have hcomm : den * (num / den) = num / den * den := Nat.mul_comm _ _
  simp only [nearestEven]
  split
  · rename_i h
    rw [Nat.add_one_mul (num / den)]
    omega
  · omega

theorem two_mul_le_nearestEven_mul {den : Nat} (hden : 0 < den) (num : Nat) :
    2 * num ≤ 2 * (nearestEven num den * den) + den := by
  have hdm := Nat.div_add_mod num den
  have hcomm : den * (num / den) = num / den * den := Nat.mul_comm _ _
  have hrest := Nat.mod_lt num hden
  simp only [nearestEven]
  split
  · rw [Nat.add_one_mul (num / den)]
    omega
  · omega

namespace Binary64

/-! ## Spacing -/

theorem spacing_dvd_spacing {a b : Nat} (h : a ≤ b) : spacing a ∣ spacing b := by
  rw [spacing, spacing, Nat.one_shiftLeft, Nat.one_shiftLeft]
  apply pow_dvd_pow
  have hlog : a.log2 ≤ b.log2 := by
    by_cases ha : a = 0
    · subst ha
      exact Nat.zero_le _
    · exact (Nat.le_log2 (by omega)).2 (Nat.le_trans (Nat.log2_self_le ha) h)
  omega

theorem spacing_mul_le {units : Nat} (h : 1 <<< 52 ≤ units) :
    spacing units * (1 <<< 52) ≤ units := by
  have hne : units ≠ 0 := by
    rintro rfl
    revert h
    decide
  have hlog : 52 ≤ units.log2 := (Nat.le_log2 hne).2 (by rwa [Nat.one_shiftLeft] at h)
  calc spacing units * (1 <<< 52) = 2 ^ units.log2 := by
        rw [spacing, Nat.one_shiftLeft, Nat.one_shiftLeft, ← Nat.pow_add, Nat.sub_add_cancel hlog]
    _ ≤ units := Nat.log2_self_le hne

/-- A whole number of at most 53 bits, shifted, is a magnitude of the format. -/
theorem aligned_shiftLeft_of_le {k : Nat} (h : k ≤ 1 <<< 53) (s : Nat) :
    (k <<< s) % spacing (k <<< s) = 0 := by
  by_cases hlo : 1 <<< 52 ≤ k
  · exact aligned_shiftLeft hlo h
  · -- all of the number lies above the places that its magnitude leaves out
    have hdvd : spacing (k <<< s) ∣ 2 ^ s := by
      by_cases hk : k = 0
      · subst hk
        rw [Nat.zero_shiftLeft]
        exact one_dvd _
      · have hne : k <<< s ≠ 0 := by
          rw [Nat.shiftLeft_eq]
          exact Nat.mul_ne_zero hk (Nat.two_pow_pos s).ne'
        have hlog : (k <<< s).log2 < 52 + s := by
          rw [Nat.log2_lt hne, Nat.shiftLeft_eq, Nat.pow_add]
          rw [Nat.one_shiftLeft] at hlo
          exact Nat.mul_lt_mul_of_pos_right (by omega) (Nat.two_pow_pos s)
        rw [spacing, Nat.one_shiftLeft]
        exact pow_dvd_pow 2 (by omega)
    rw [Nat.shiftLeft_eq]
    rw [Nat.shiftLeft_eq] at hdvd
    exact Nat.mod_eq_zero_of_dvd (hdvd.mul_left k)

/-! ## Rounded magnitudes -/

variable {num den m : Nat}

theorem roundMagnitude_mul_right {k : Nat} (hk : 0 < k) (num den : Nat) :
    roundMagnitude (num * k) (den * k) = roundMagnitude num den := by
  have hdiv : num * k / (den * k) = num / den := Nat.mul_div_mul_right num den hk
  have hden : den * k * spacing (num / den) = den * spacing (num / den) * k := by ring
  simp only [roundMagnitude, hdiv, hden, nearestEven_mul_right hk]

theorem roundMagnitude_le (hden : 0 < den) (hm : m % spacing m = 0) (h : num ≤ m * den) :
    roundMagnitude num den ≤ m := by
  have hle : num / den ≤ m := Nat.div_le_of_le_mul (by rwa [Nat.mul_comm])
  obtain ⟨k, hk⟩ := (spacing_dvd_spacing hle).trans (Nat.dvd_of_mod_eq_zero hm)
  have hnear : nearestEven num (den * spacing (num / den)) ≤ k := by
    apply nearestEven_le (Nat.mul_pos hden (spacing_pos _))
    calc num ≤ m * den := h
      _ = k * (den * spacing (num / den)) := by rw [hk]; ring
  calc roundMagnitude num den
      = nearestEven num (den * spacing (num / den)) * spacing (num / den) := rfl
    _ ≤ k * spacing (num / den) := Nat.mul_le_mul_right _ hnear
    _ = m := by rw [hk, Nat.mul_comm]

theorem le_roundMagnitude_of_dvd (hden : 0 < den) (hm : spacing (num / den) ∣ m)
    (h : m * den ≤ num) : m ≤ roundMagnitude num den := by
  obtain ⟨k, rfl⟩ := hm
  have hnear : k ≤ nearestEven num (den * spacing (num / den)) := by
    apply le_nearestEven (Nat.mul_pos hden (spacing_pos _))
    calc k * (den * spacing (num / den)) = spacing (num / den) * k * den := by ring
      _ ≤ num := h
  calc spacing (num / den) * k = k * spacing (num / den) := Nat.mul_comm _ _
    _ ≤ roundMagnitude num den := Nat.mul_le_mul_right _ hnear

theorem le_roundMagnitude (hden : 0 < den) (hm : m % spacing m = 0) (h : m * den ≤ num) :
    m ≤ roundMagnitude num den := by
  have hle : m ≤ num / den := (Nat.le_div_iff_mul_le hden).2 h
  by_cases hlog : m.log2 = (num / den).log2
  · apply le_roundMagnitude_of_dvd hden _ h
    rw [spacing, ← hlog]
    exact Nat.dvd_of_mod_eq_zero hm
  · -- a power of two that is held lies between the two numbers
    by_cases hm0 : m = 0
    · rw [hm0]
      exact Nat.zero_le _
    have hne : num / den ≠ 0 := by omega
    have hlt : m.log2 < (num / den).log2 := by
      have : m.log2 ≤ (num / den).log2 :=
        (Nat.le_log2 hne).2 (Nat.le_trans (Nat.log2_self_le hm0) hle)
      omega
    have hbelow : m ≤ 2 ^ (num / den).log2 :=
      calc m ≤ 2 ^ (m.log2 + 1) := Nat.le_of_lt Nat.lt_log2_self
        _ ≤ 2 ^ (num / den).log2 := Nat.pow_le_pow_right (by decide) hlt
    refine Nat.le_trans hbelow (le_roundMagnitude_of_dvd hden ?_ ?_)
    · rw [spacing, Nat.one_shiftLeft]
      exact pow_dvd_pow 2 (Nat.sub_le _ _)
    · rw [← Nat.le_div_iff_mul_le hden]
      exact Nat.log2_self_le hne

/-- What the format holds is not rounded. -/
theorem roundMagnitude_of_aligned (hden : 0 < den) (hm : m % spacing m = 0) :
    roundMagnitude (m * den) den = m :=
  Nat.le_antisymm (roundMagnitude_le hden hm (Nat.le_refl _))
    (le_roundMagnitude hden hm (Nat.le_refl _))

theorem roundMagnitude_one (hm : m % spacing m = 0) : roundMagnitude m 1 = m := by
  have h := roundMagnitude_of_aligned Nat.one_pos hm
  rwa [Nat.mul_one] at h

theorem two_mul_roundMagnitude_mul_le (num den : Nat) :
    2 * (roundMagnitude num den * den) ≤ 2 * num + den * spacing (num / den) :=
  calc 2 * (roundMagnitude num den * den)
      = 2 * (nearestEven num (den * spacing (num / den)) * (den * spacing (num / den))) := by
        rw [roundMagnitude]
        ring
    _ ≤ 2 * num + den * spacing (num / den) := two_mul_nearestEven_mul_le _ _

theorem two_mul_le_roundMagnitude_mul (hden : 0 < den) (num : Nat) :
    2 * num ≤ 2 * (roundMagnitude num den * den) + den * spacing (num / den) :=
  calc 2 * num
      ≤ 2 * (nearestEven num (den * spacing (num / den)) * (den * spacing (num / den))) +
        den * spacing (num / den) := two_mul_le_nearestEven_mul (Nat.mul_pos hden (spacing_pos _)) _
    _ = 2 * (roundMagnitude num den * den) + den * spacing (num / den) := by
        rw [roundMagnitude]
        ring

theorem mul_spacing_div_le (hden : 0 < den) (h : (1 <<< 52) * den ≤ num) :
    den * spacing (num / den) * (1 <<< 52) ≤ num :=
  calc den * spacing (num / den) * (1 <<< 52) = den * (spacing (num / den) * (1 <<< 52)) := by
        ring
    _ ≤ den * (num / den) := Nat.mul_le_mul_left den
        (spacing_mul_le ((Nat.le_div_iff_mul_le hden).2 h))
    _ ≤ num := Nat.mul_div_le num den

/-- Above the least magnitudes the error is small beside the quotient itself. -/
theorem roundMagnitude_mul_le_of_le (hden : 0 < den) (h : (1 <<< 52) * den ≤ num) :
    (1 <<< 53) * (roundMagnitude num den * den) ≤ (1 <<< 53) * num + num := by
  have herror := two_mul_roundMagnitude_mul_le num den
  have hspacing := mul_spacing_div_le hden h
  have h52 : (1 <<< 52 : Nat) = 4503599627370496 := by decide
  have h53 : (1 <<< 53 : Nat) = 9007199254740992 := by decide
  rw [h52] at hspacing
  rw [h53]
  omega

theorem le_roundMagnitude_mul_of_le (hden : 0 < den) (h : (1 <<< 52) * den ≤ num) :
    (1 <<< 53 - 1) * num ≤ (1 <<< 53) * (roundMagnitude num den * den) := by
  have herror := two_mul_le_roundMagnitude_mul hden num
  have hspacing := mul_spacing_div_le hden h
  have h52 : (1 <<< 52 : Nat) = 4503599627370496 := by decide
  have h53 : (1 <<< 53 : Nat) = 9007199254740992 := by decide
  rw [h52] at hspacing
  rw [h53]
  omega

/-! ## Rounding two quotients -/

variable {num' den' : Nat}

theorem roundMagnitude_le_of_num_le (hden : 0 < den) (h : num ≤ num') :
    roundMagnitude num den ≤ roundMagnitude num' den := by
  have hdiv : num / den ≤ num' / den := Nat.div_le_div_right h
  by_cases hlog : (num / den).log2 = (num' / den).log2
  · rw [roundMagnitude, roundMagnitude, spacing, spacing, hlog]
    exact Nat.mul_le_mul_right _ (nearestEven_le_nearestEven h)
  · -- a power of two lies between the two quotients
    have hzero : num' / den ≠ 0 := by
      intro hzero
      have hnone : num / den = 0 := Nat.le_zero.1 (hzero ▸ hdiv)
      exact hlog (by rw [hzero, hnone])
    have hpower : (1 <<< (num' / den).log2) % spacing (1 <<< (num' / den).log2) = 0 :=
      aligned_shiftLeft_of_le (by decide) _
    have hlt : num / den < 2 ^ (num' / den).log2 := by
      by_cases hnone : num / den = 0
      · rw [hnone]
        exact Nat.two_pow_pos _
      · have hle : (num / den).log2 ≤ (num' / den).log2 :=
          (Nat.le_log2 hzero).2 (Nat.le_trans (Nat.log2_self_le hnone) hdiv)
        exact (Nat.log2_lt hnone).1 (by omega)
    calc roundMagnitude num den ≤ 1 <<< (num' / den).log2 := by
          refine roundMagnitude_le hden hpower ?_
          rw [Nat.one_shiftLeft]
          exact Nat.le_of_lt ((Nat.div_lt_iff_lt_mul hden).1 hlt)
      _ ≤ roundMagnitude num' den := by
          refine le_roundMagnitude hden hpower ?_
          rw [Nat.one_shiftLeft, ← Nat.le_div_iff_mul_le hden]
          exact Nat.log2_self_le hzero

theorem roundMagnitude_le_roundMagnitude (hden : 0 < den) (hden' : 0 < den')
    (h : num * den' ≤ num' * den) : roundMagnitude num den ≤ roundMagnitude num' den' :=
  calc roundMagnitude num den = roundMagnitude (num * den') (den * den') :=
        (roundMagnitude_mul_right hden' num den).symm
    _ ≤ roundMagnitude (num' * den) (den * den') :=
        roundMagnitude_le_of_num_le (Nat.mul_pos hden hden') h
    _ = roundMagnitude num' den' := by
        rw [Nat.mul_comm den den', roundMagnitude_mul_right hden]

/-- Where 53 bits are left, rounding does not depend on the power of two. -/
theorem roundMagnitude_shiftLeft (hden : 0 < den) (h : (1 <<< 52) * den ≤ num) (k : Nat) :
    roundMagnitude (num <<< k) den = roundMagnitude num den <<< k := by
  have hlarge : 2 ^ 52 ≤ num / den := by
    rw [← Nat.one_shiftLeft]
    exact (Nat.le_div_iff_mul_le hden).2 h
  have hne : num / den ≠ 0 := by omega
  have hfew : 52 ≤ (num / den).log2 := (Nat.le_log2 hne).2 hlarge
  have hlog : (num <<< k / den).log2 = (num / den).log2 + k := by
    have hlow : 2 ^ ((num / den).log2 + k) ≤ num <<< k / den := by
      rw [Nat.le_div_iff_mul_le hden, Nat.shiftLeft_eq, Nat.pow_add, Nat.mul_right_comm]
      exact Nat.mul_le_mul_right _ ((Nat.le_div_iff_mul_le hden).1 (Nat.log2_self_le hne))
    have hhigh : num <<< k / den < 2 ^ ((num / den).log2 + k + 1) := by
      rw [Nat.div_lt_iff_lt_mul hden, Nat.shiftLeft_eq, Nat.add_right_comm, Nat.pow_add _ _ k,
        Nat.mul_right_comm]
      refine Nat.mul_lt_mul_of_pos_right ?_ (Nat.two_pow_pos k)
      exact (Nat.div_lt_iff_lt_mul hden).1 Nat.lt_log2_self
    have hpos : num <<< k / den ≠ 0 := (Nat.lt_of_lt_of_le (Nat.two_pow_pos _) hlow).ne'
    have hle := (Nat.le_log2 hpos).2 hlow
    have hlt := (Nat.log2_lt hpos).2 hhigh
    omega
  have hspacing : spacing (num <<< k / den) = spacing (num / den) * 2 ^ k := by
    rw [spacing, spacing, hlog, Nat.one_shiftLeft, Nat.one_shiftLeft, ← Nat.pow_add]
    congr 1
    omega
  rw [roundMagnitude, roundMagnitude, hspacing, Nat.shiftLeft_eq, Nat.shiftLeft_eq,
    ← Nat.mul_assoc den, nearestEven_mul_right (Nat.two_pow_pos k), Nat.mul_assoc]

/-! ## Dividing a range

A magnitude is divided into equal steps, and the step is rounded. All steps but the last together
stay within the magnitude, although each may be too long.
-/

theorem pred_mul_roundMagnitude_le (hden : 0 < den) (hfew : den ≤ 1 <<< 53)
    (h : (1 <<< 52) * den ≤ num) : (den - 1) * roundMagnitude num den ≤ num := by
  have herror := roundMagnitude_mul_le_of_le hden h
  have hstep : roundMagnitude num den * den ≤ roundMagnitude num den * (1 <<< 53) :=
    Nat.mul_le_mul_left _ hfew
  have hpred : (den - 1) * roundMagnitude num den =
      roundMagnitude num den * den - roundMagnitude num den := by
    rw [Nat.sub_one_mul, Nat.mul_comm]
  have h53 : (1 <<< 53 : Nat) = 9007199254740992 := by decide
  rw [h53] at herror hstep
  omega

theorem pred_mul_roundMagnitude_add_spacing_le (hden : 0 < den) (hfew : den ≤ 1 <<< 32)
    (h : (1 <<< 52) * den ≤ num) :
    (den - 1) * roundMagnitude num den + spacing num ≤ num := by
  have herror := roundMagnitude_mul_le_of_le hden h
  have hstep : roundMagnitude num den * den ≤ roundMagnitude num den * (1 <<< 32) :=
    Nat.mul_le_mul_left _ hfew
  have hspacing : spacing num * (1 <<< 52) ≤ num :=
    spacing_mul_le (Nat.le_trans (Nat.le_mul_of_pos_right _ hden) h)
  have hpred : (den - 1) * roundMagnitude num den =
      roundMagnitude num den * den - roundMagnitude num den := by
    rw [Nat.sub_one_mul, Nat.mul_comm]
  have h32 : (1 <<< 32 : Nat) = 4294967296 := by decide
  have h52 : (1 <<< 52 : Nat) = 4503599627370496 := by decide
  have h53 : (1 <<< 53 : Nat) = 9007199254740992 := by decide
  rw [h53] at herror
  rw [h32] at hstep
  rw [h52] at hspacing
  omega

theorem aligned_sub_spacing (hm : m % spacing m = 0) :
    (m - spacing m) % spacing (m - spacing m) = 0 := by
  have hdvd : spacing m ∣ m - spacing m :=
    Nat.dvd_sub (Nat.dvd_of_mod_eq_zero hm) (Nat.dvd_refl _)
  exact Nat.mod_eq_zero_of_dvd ((spacing_dvd_spacing (Nat.sub_le _ _)).trans hdvd)

/-- Dividing by a power of two is exact where enough places are left. -/
theorem roundMagnitude_mul_shiftLeft (hm : m % spacing m = 0) (h : 1 <<< 105 ≤ m) :
    (1 <<< 53) * roundMagnitude m (1 <<< 53) = m := by
  have hm0 : m ≠ 0 := by
    rintro rfl
    revert h
    decide
  have hlog : 105 ≤ m.log2 := (Nat.le_log2 hm0).2 (by rwa [Nat.one_shiftLeft] at h)
  obtain ⟨k, hk⟩ := Nat.dvd_of_mod_eq_zero hm
  have hspacing : spacing m = 2 ^ 53 * 2 ^ (m.log2 - 105) := by
    rw [spacing, Nat.one_shiftLeft, ← Nat.pow_add, show 53 + (m.log2 - 105) = m.log2 - 52 by omega]
  have hsplit : m = k <<< (m.log2 - 105) * 2 ^ 53 := by
    rw [Nat.shiftLeft_eq]
    calc m = spacing m * k := hk
      _ = k * 2 ^ (m.log2 - 105) * 2 ^ 53 := by rw [hspacing]; ring
  have hbits : k ≤ 1 <<< 53 := by
    have hlt : k * 2 ^ (m.log2 - 52) < 2 ^ 53 * 2 ^ (m.log2 - 52) :=
      calc k * 2 ^ (m.log2 - 52) = m := by
            rw [← Nat.one_shiftLeft (m.log2 - 52), Nat.mul_comm]
            exact hk.symm
        _ < 2 ^ (m.log2 + 1) := Nat.lt_log2_self
        _ = 2 ^ 53 * 2 ^ (m.log2 - 52) := by
            rw [← Nat.pow_add, show 53 + (m.log2 - 52) = m.log2 + 1 by omega]
    rw [Nat.one_shiftLeft]
    exact Nat.le_of_lt (Nat.lt_of_mul_lt_mul_right hlt)
  have hexact := roundMagnitude_of_aligned (Nat.two_pow_pos 53)
    (aligned_shiftLeft_of_le hbits (m.log2 - 105))
  rw [← hsplit] at hexact
  rw [Nat.one_shiftLeft, hexact, Nat.mul_comm]
  exact hsplit.symm

end Binary64

end HeapLatency
