import HeapLatency.Proofs.Number.Near
import Mathlib.Data.Nat.Dist

/-!
# The nearest magnitude

No magnitude of the format is nearer to a quotient than the one that it is rounded to, and that one
is at most half its spacing away. So a quotient that is no further from a magnitude than another one
that is rounded to it is rounded to it as well. A power of two is the exception: the format is finer
below it.
-/

namespace HeapLatency

/-! ## Whole numbers -/

theorem dist_nearestEven_le {num den : Nat} (hden : 0 < den) (m : Nat) :
    Nat.dist (nearestEven num den * den) num ≤ Nat.dist (m * den) num := by
  have hbelow := two_mul_nearestEven_mul_le num den
  have habove := two_mul_le_nearestEven_mul hden num
  have hside : m = nearestEven num den ∨ m * den + den ≤ nearestEven num den * den ∨
      nearestEven num den * den + den ≤ m * den := by
    rcases Nat.lt_trichotomy m (nearestEven num den) with hlt | heq | hgt
    · right; left
      rw [← Nat.succ_mul]
      exact Nat.mul_le_mul_right den hlt
    · exact .inl heq
    · right; right
      rw [← Nat.succ_mul]
      exact Nat.mul_le_mul_right den hgt
  rcases hside with rfl | hside
  · exact Nat.le_refl _
  · rw [Nat.dist, Nat.dist]
    omega

theorem two_mul_dist_nearestEven_lt {num den : Nat} (hden : 0 < den)
    (hodd : nearestEven num den % 2 = 1) : 2 * Nat.dist (nearestEven num den * den) num < den := by
  have hdm := Nat.div_add_mod num den
  have hcomm : den * (num / den) = num / den * den := Nat.mul_comm _ _
  have hrest := Nat.mod_lt num hden
  rw [Nat.dist]
  simp only [nearestEven] at hodd ⊢
  split_ifs at hodd ⊢ with hup
  · rw [Nat.add_one_mul (num / den)]
    omega
  · omega

namespace Binary64

variable {num den m : Nat}

/-! ## Neighbouring magnitudes -/

theorem spacing_le_spacing {a b : Nat} (h : a ≤ b) : spacing a ≤ spacing b :=
  Nat.le_of_dvd (spacing_pos b) (spacing_dvd_spacing h)

theorem add_spacing_le {a b : Nat} (ha : a % spacing a = 0) (hb : b % spacing b = 0) (h : a < b) :
    a + spacing a ≤ b := by
  have hdvd : spacing a ∣ b - a :=
    Nat.dvd_sub ((spacing_dvd_spacing (Nat.le_of_lt h)).trans (Nat.dvd_of_mod_eq_zero hb))
      (Nat.dvd_of_mod_eq_zero ha)
  have hle := Nat.le_of_dvd (Nat.sub_pos_of_lt h) hdvd
  omega

theorem spacing_div_le_of_roundMagnitude_le (hden : 0 < den) (h : roundMagnitude num den ≤ m) :
    spacing (num / den) ≤ spacing m := by
  by_cases hzero : num / den = 0
  · rw [hzero]
    exact spacing_le_spacing (Nat.zero_le m)
  have hpower : 2 ^ (num / den).log2 ≤ roundMagnitude num den := by
    apply le_roundMagnitude hden
    · rw [← Nat.one_shiftLeft]
      exact aligned_shiftLeft_of_le (by decide) _
    · exact (Nat.le_div_iff_mul_le hden).1 (Nat.log2_self_le hzero)
  have heq : spacing (num / den) = spacing (2 ^ (num / den).log2) := by
    rw [spacing, spacing, Nat.log2_two_pow]
  rw [heq]
  exact spacing_le_spacing (Nat.le_trans hpower h)

/-! ## Distances -/

/-- A magnitude of the format is a multiple of the spacing at a quotient, or lies below the power of
two at which this spacing begins. -/
theorem spacing_dvd_or_lt (quotient : Nat) (hm : m % spacing m = 0) :
    spacing quotient ∣ m ∨ m < 2 ^ quotient.log2 ∧ 2 ^ quotient.log2 ≤ quotient := by
  by_cases hdvd : spacing quotient ∣ m
  · exact .inl hdvd
  · right
    have hlt : m < quotient := by
      by_contra hle
      exact hdvd ((spacing_dvd_spacing (Nat.not_lt.1 hle)).trans (Nat.dvd_of_mod_eq_zero hm))
    refine ⟨?_, Nat.log2_self_le (by omega)⟩
    by_contra hle
    have hsame := spacing_eq_of_le (Nat.not_lt.1 hle) (Nat.lt_trans hlt Nat.lt_log2_self)
    rw [spacing_eq_two_pow, ← hsame] at hdvd
    exact hdvd (Nat.dvd_of_mod_eq_zero hm)

theorem dist_roundMagnitude_le (hden : 0 < den) (hm : m % spacing m = 0) :
    Nat.dist (roundMagnitude num den * den) num ≤ Nat.dist (m * den) num := by
  have hmultiple (k : Nat) : Nat.dist (roundMagnitude num den * den) num ≤
      Nat.dist (k * spacing (num / den) * den) num := by
    have hnear : Nat.dist (nearestEven num (den * spacing (num / den)) *
        (den * spacing (num / den))) num ≤ Nat.dist (k * (den * spacing (num / den))) num :=
      dist_nearestEven_le (Nat.mul_pos hden (spacing_pos (num / den))) k
    have hregroup (n : Nat) : n * (den * spacing (num / den)) = n * spacing (num / den) * den := by
      ring
    rwa [hregroup, hregroup] at hnear
  rcases spacing_dvd_or_lt (num / den) hm with ⟨k, rfl⟩ | ⟨hlt, hle⟩
  · rw [Nat.mul_comm (spacing _)]
    exact hmultiple k
  · -- the power of two is a multiple of the spacing, and it is nearer
    obtain ⟨k, hk⟩ : spacing (num / den) ∣ 2 ^ (num / den).log2 := by
      rw [spacing_eq_two_pow]
      exact pow_dvd_pow 2 (Nat.sub_le _ _)
    have hpower := hmultiple k
    rw [Nat.mul_comm k, ← hk] at hpower
    have hbelow : m * den ≤ 2 ^ (num / den).log2 * den :=
      Nat.mul_le_mul_right den (Nat.le_of_lt hlt)
    have habove : 2 ^ (num / den).log2 * den ≤ num := (Nat.le_div_iff_mul_le hden).1 hle
    refine Nat.le_trans hpower ?_
    rw [Nat.dist_eq_sub_of_le habove, Nat.dist_eq_sub_of_le (Nat.le_trans hbelow habove)]
    exact Nat.sub_le_sub_left hbelow num

theorem two_mul_dist_roundMagnitude_le (hden : 0 < den) (num : Nat) :
    2 * Nat.dist (roundMagnitude num den * den) num ≤ spacing (roundMagnitude num den) * den ∧
      (roundMagnitude num den / spacing (roundMagnitude num den) % 2 = 1 →
        2 * Nat.dist (roundMagnitude num den * den) num <
          spacing (roundMagnitude num den) * den) := by
  have hbelow := two_mul_roundMagnitude_mul_le num den
  have habove := two_mul_le_roundMagnitude_mul hden num
  rw [Nat.mul_comm den] at hbelow habove
  have hle : 2 * Nat.dist (roundMagnitude num den * den) num ≤ spacing (num / den) * den := by
    rw [Nat.dist]
    omega
  have hspacing : spacing (num / den) ≤ spacing (roundMagnitude num den) :=
    spacing_div_le_of_roundMagnitude_le hden (Nat.le_refl _)
  rcases Nat.lt_or_eq_of_le hspacing with hlt | heq
  · have hless := Nat.mul_lt_mul_of_pos_right hlt hden
    exact ⟨by omega, fun _ => by omega⟩
  · rw [← heq]
    refine ⟨hle, fun hodd => ?_⟩
    have hround : roundMagnitude num den =
        nearestEven num (den * spacing (num / den)) * spacing (num / den) := rfl
    rw [hround, Nat.mul_div_cancel _ (spacing_pos _)] at hodd
    have hregroup : nearestEven num (den * spacing (num / den)) * (den * spacing (num / den)) =
        roundMagnitude num den * den := by
      rw [hround]
      ring
    have hless := two_mul_dist_nearestEven_lt (Nat.mul_pos hden (spacing_pos _)) hodd
    rwa [hregroup, Nat.mul_comm den] at hless

/-- What is no further from a magnitude than a quotient that is rounded to it, is rounded to it too,
unless the magnitude is a power of two. -/
theorem roundMagnitude_eq_of_dist_le {num' : Nat} (hden : 0 < den)
    (hgap : gapBelow (roundMagnitude num den) = 2 * spacing (roundMagnitude num den))
    (h : Nat.dist (roundMagnitude num den * den) num' ≤
      Nat.dist (roundMagnitude num den * den) num) :
    roundMagnitude num' den = roundMagnitude num den := by
  obtain ⟨hhalf, hodd⟩ := two_mul_dist_roundMagnitude_le hden num
  have haligned := aligned_roundMagnitude num den
  generalize roundMagnitude num den = units at hgap h hhalf hodd haligned ⊢
  rw [Nat.dist, Nat.dist] at h
  rw [Nat.dist] at hhalf hodd
  refine roundMagnitude_of_near haligned hden ⟨?_, ?_, fun hmod => ?_⟩
  · rw [hgap, Nat.mul_assoc]
    omega
  · rw [gapAbove, Nat.mul_assoc]
    omega
  · have hless := hodd hmod
    rw [hgap, gapAbove, Nat.mul_assoc]
    omega

end Binary64

end HeapLatency
