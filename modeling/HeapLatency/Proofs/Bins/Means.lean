import HeapLatency.Proofs.Bins.Edges

/-!
# Ranges of whole samples

Whole samples are zero or at least one, and so is every sum of them, however it is rounded. No
series has more samples than a machine word can count. Its mean is then far above the least
magnitudes of the format, where a step is rounded so closely that the steps before the last stay
below the range.
-/

namespace HeapLatency

namespace Binary64

/-- Zero, or a positive number from a magnitude on, an infinity included. -/
inductive ZeroOrFrom (least : Nat) : Binary64 → Prop where
  | finite {negative : Bool} {units : Nat} {held : Held units}
    (positive : signed negative units = units) (zeroOrFrom : units = 0 ∨ least ≤ units) :
    ZeroOrFrom least (.finite negative units held)
  | infinite : ZeroOrFrom least (.infinite false)

variable {least : Nat} {x y : Binary64}

theorem zeroOrFrom_ofExact {num den : Nat} (hden : 0 < den) (aligned : least % spacing least = 0)
    (h : least * den ≤ num) : ZeroOrFrom least (ofExact false num den) := by
  have hle : least ≤ roundMagnitude num den := le_roundMagnitude hden aligned h
  by_cases hlt : roundMagnitude num den < overflow
  · rw [ofExact_of_lt hlt]
    exact .finite rfl (Or.inr hle)
  · rw [ofExact_of_le (Nat.not_lt.1 hlt)]
    exact .infinite

theorem zeroOrFrom_ofExact_zero {den : Nat} (hden : 0 < den) (negative : Bool) :
    ZeroOrFrom least (ofExact negative 0 den) := by
  obtain ⟨held, heq⟩ := ofExact_zero negative hden
  rw [heq]
  exact .finite (by cases negative <;> rfl) (Or.inl rfl)

theorem ZeroOrFrom.add (hx : ZeroOrFrom least x) (hy : ZeroOrFrom least y)
    (aligned : least % spacing least = 0) : ZeroOrFrom least (x + y) := by
  cases hx with
  | infinite => cases hy <;> exact .infinite
  | finite hsx hx =>
    cases hy with
    | infinite => exact .infinite
    | @finite t b hb hsy hy =>
      rename_i s a ha
      show ZeroOrFrom least (addFinite s a t b)
      rw [addFinite, hsx, hsy, ← Int.natCast_add]
      by_cases hzero : a + b = 0
      · rw [if_pos (by rw [hzero]; rfl)]
        exact zeroOrFrom_ofExact_zero Nat.one_pos _
      · rw [if_neg (Int.natCast_ne_zero.2 hzero),
          decide_eq_false (Int.not_lt.2 (Int.natCast_nonneg _)),
          Int.natAbs_natCast]
        exact zeroOrFrom_ofExact Nat.one_pos aligned (by omega)

/-- Scaling, whether by a product or by a quotient, moves the magnitude that numbers begin at. -/
theorem ZeroOrFrom.scale {scaled num den : Nat} (hden : 0 < den) {negative : Bool} {units : Nat}
    (positive : signed negative units = units) (zeroOrFrom : units = 0 ∨ least ≤ units)
    (aligned : scaled % spacing scaled = 0) (h : scaled * den ≤ least * num) :
    ZeroOrFrom scaled (ofExact negative (units * num) den) := by
  by_cases hzero : units = 0
  · rw [hzero, Nat.zero_mul]
    exact zeroOrFrom_ofExact_zero hden negative
  · cases negative with
    | true =>
      simp only [signed, if_true] at positive
      omega
    | false =>
      exact zeroOrFrom_ofExact hden aligned
        (Nat.le_trans h (Nat.mul_le_mul_right num (zeroOrFrom.resolve_left hzero)))

theorem ZeroOrFrom.div_finite {scaled count : Nat} {held : Held count} (hx : ZeroOrFrom least x)
    (hpos : 0 < count) (aligned : scaled % spacing scaled = 0)
    (h : scaled * count ≤ least * unitsPerOne) :
    ZeroOrFrom scaled (x / .finite false count held) := by
  cases hx with
  | infinite => exact .infinite
  | @finite s a ha positive zeroOrFrom =>
    show ZeroOrFrom scaled (if count = 0 then _ else ofExact (s != false) _ _)
    rw [if_neg hpos.ne', Bool.bne_false]
    exact ZeroOrFrom.scale hpos positive zeroOrFrom aligned h

theorem ZeroOrFrom.mul_finite {scaled count : Nat} {held : Held count} (hx : ZeroOrFrom least x)
    (hpos : 0 < count) (aligned : scaled % spacing scaled = 0)
    (h : scaled * unitsPerOne ≤ least * count) :
    ZeroOrFrom scaled (x * .finite false count held) := by
  cases hx with
  | infinite =>
    show ZeroOrFrom scaled (if count = 0 then .nan else .infinite (false != false))
    rw [if_neg hpos.ne']
    exact .infinite
  | @finite s a ha positive zeroOrFrom =>
    show ZeroOrFrom scaled (ofExact (s != false) (a * count) unitsPerOne)
    rw [Bool.bne_false]
    exact ZeroOrFrom.scale unitsPerOne_pos positive zeroOrFrom aligned h

theorem zeroOrFrom_ofNat (n : Nat) : ZeroOrFrom unitsPerOne (ofNat n) := by
  rw [ofNat]
  cases n with
  | zero =>
    rw [Nat.zero_mul]
    exact zeroOrFrom_ofExact_zero Nat.one_pos false
  | succ n =>
    apply zeroOrFrom_ofExact Nat.one_pos held_unitsPerOne.aligned
    rw [Nat.mul_one]
    exact Nat.le_mul_of_pos_left unitsPerOne (Nat.succ_pos n)

/-- Rounding a sum of samples never brings it below the magnitude that they begin at. -/
theorem zeroOrFrom_sum {samples : List Binary64} (aligned : least % spacing least = 0)
    (h : ∀ sample ∈ samples, ZeroOrFrom least sample) : ZeroOrFrom least (sum samples) := by
  have hfold : ∀ total, ZeroOrFrom least total →
      ZeroOrFrom least (samples.foldl (· + ·) total) := by
    induction samples with
    | nil => exact fun total htotal => htotal
    | cons sample samples ih =>
      intro total htotal
      rw [List.forall_mem_cons] at h
      exact ih h.2 _ (htotal.add h.1 aligned)
  exact hfold _ (zeroOrFrom_ofExact_zero Nat.one_pos true)

/-- The magnitude that means of whole samples begin at, if they are zero no more. -/
def leastMean : Nat := 1 <<< 1010

theorem aligned_leastMean : leastMean % spacing leastMean = 0 := by
  rw [leastMean]
  exact aligned_shiftLeft_of_le (k := 1) (by decide) 1010

/-- A positive number from one magnitude to another. -/
def Between (least most : Nat) (x : Binary64) : Prop :=
  ∃ units held, x = .finite false units held ∧ least ≤ units ∧ units ≤ most

theorem between_ofExact {most num den : Nat} (aligned : least % spacing least = 0)
    (hmost : Held most) (hden : 0 < den) (hlow : least * den ≤ num) (hhigh : num ≤ most * den) :
    Between least most (ofExact false num den) := by
  obtain ⟨units, held, heq, hle⟩ := ofExact_le false hmost hden hhigh
  refine ⟨units, held, heq, ?_, hle⟩
  rw [units_of_ofExact heq]
  exact le_roundMagnitude hden aligned hlow

theorem between_ofNat {n : Nat} (hpos : 0 < n) (hword : n ≤ 1 <<< 64) :
    Between unitsPerOne (1 <<< 1138) (ofNat n) := by
  have held : Held (1 <<< 1138) := held_shiftLeft (by decide) (by decide)
  refine between_ofExact held_unitsPerOne.aligned held Nat.one_pos ?_ ?_
  · rw [Nat.mul_one]
    exact Nat.le_mul_of_pos_left unitsPerOne hpos
  · rw [Nat.mul_one]
    exact word_units_le hword

theorem exists_units_ofNat {n : Nat} (hpos : 0 < n) (hword : n ≤ 1 <<< 64) :
    ∃ units held, ofNat n = .finite false units held ∧ 0 < units ∧
      leastMean * units ≤ unitsPerOne * unitsPerOne := by
  obtain ⟨units, held, heq, hone, hmany⟩ := between_ofNat hpos hword
  refine ⟨units, held, heq, Nat.lt_of_lt_of_le unitsPerOne_pos hone, ?_⟩
  calc leastMean * units ≤ leastMean * 1 <<< 1138 := Nat.mul_le_mul_left leastMean hmany
    _ = unitsPerOne * unitsPerOne := by
        rw [leastMean, unitsPerOne, one_shiftLeft_mul, one_shiftLeft_mul]

theorem mean?_eq_some_iff {samples : List Binary64} {mean : Binary64} :
    mean? samples = some mean ↔ 0 < samples.length ∧ mean = sum samples / ofNat samples.length := by
  cases samples with
  | nil => exact iff_of_false (fun h => by cases h) fun h => Nat.lt_irrefl 0 h.1
  | cons sample samples =>
    rw [mean?, List.isEmpty_cons, if_neg Bool.false_ne_true, Option.some.injEq]
    exact ⟨fun h => ⟨Nat.succ_pos _, h.symm⟩, fun h => h.2.symm⟩

theorem zeroOrFrom_mean {cycles : List UInt64} {mean : Binary64} (hword : cycles.length < 1 <<< 64)
    (h : mean? (samplesOf cycles) = some mean) : ZeroOrFrom leastMean mean := by
  obtain ⟨hsome, hmean⟩ := mean?_eq_some_iff.1 h
  have hlength : (samplesOf cycles).length = cycles.length := List.length_map _
  rw [hlength] at hsome hmean
  obtain ⟨count, hcount, heq, hpos, hbound⟩ := exists_units_ofNat hsome (Nat.le_of_lt hword)
  have hsum : ZeroOrFrom unitsPerOne (sum (samplesOf cycles)) :=
    zeroOrFrom_sum held_unitsPerOne.aligned
      (List.forall_mem_map.2 fun first _ => zeroOrFrom_ofNat first.toNat)
  rw [hmean, heq]
  exact hsum.div_finite hpos aligned_leastMean hbound

theorem ZeroOrFrom.mul_ofNat {n : Nat} (hx : ZeroOrFrom leastMean x) (hpos : 0 < n)
    (h : n ≤ 1 <<< 53) : ZeroOrFrom leastMean (x * ofNat n) := by
  rw [ofNat_eq h]
  exact hx.mul_finite (Nat.mul_pos hpos unitsPerOne_pos) aligned_leastMean
    (Nat.mul_le_mul_left leastMean (Nat.le_mul_of_pos_left unitsPerOne hpos))

end Binary64

namespace BinSpec

/-- With whole samples and not too many divisions the range itself is past every edge. -/
theorem meanScaled_lt {cycles : List UInt64} {divisions : Nat} {spec : BinSpec}
    (hword : cycles.length < 1 <<< 64) (hfew : divisions ≤ 1 <<< 32)
    (h : meanScaled (samplesOf cycles) divisions = .ok spec) :
    ∃ mean, Binary64.mean? (samplesOf cycles) = some mean ∧
      ∀ edge ∈ spec.edges, edge < mean * 3 := by
  obtain ⟨htwo, mean, hmean, hfinite, hpos, hedges⟩ := meanScaled_eq_ok_iff.1 h
  obtain ⟨-, hascending, rfl⟩ := ofEdges_eq_ok_iff.1 hedges
  refine ⟨mean, hmean, fun edge hedge => ?_⟩
  obtain ⟨range, hrange, hupper, hsome⟩ := Binary64.exists_units hfinite hpos
  have hleast : Binary64.leastMean ≤ range := by
    have hfrom : Binary64.ZeroOrFrom Binary64.leastMean (mean * 3) :=
      (Binary64.zeroOrFrom_mean hword hmean).mul_ofNat (by decide) (by decide)
    rw [hupper] at hfrom
    cases hfrom with
    | finite positive zeroOrFrom => exact zeroOrFrom.resolve_left hsome.ne'
  obtain ⟨step, hstep, hdivided, -⟩ := step_of_ascending htwo hascending
  have hlarge : (1 <<< 52) * divisions ≤ range :=
    calc (1 <<< 52) * divisions ≤ 1 <<< 52 * 1 <<< 32 := Nat.mul_le_mul_left _ hfew
      _ ≤ Binary64.leastMean := by
        rw [Binary64.one_shiftLeft_mul, Binary64.leastMean]
        exact Binary64.one_shiftLeft_le (by decide)
      _ ≤ range := hleast
  have hrounded : step = Binary64.roundMagnitude range divisions := by
    rw [hupper, Binary64.div_ofNat (by omega) (Nat.le_trans hfew (by decide))] at hdivided
    exact Binary64.units_of_ofExact hdivided
  have hlast := Binary64.pred_mul_roundMagnitude_add_spacing_le (by omega) hfew hlarge
  rw [← hrounded] at hlast
  have hspacing := Binary64.spacing_pos range
  have hbelow : Binary64.Held (range - Binary64.spacing range) :=
    ⟨Binary64.aligned_sub_spacing hrange.aligned,
      Nat.lt_of_le_of_lt (Nat.sub_le _ _) hrange.bounded⟩
  rw [hdivided] at hedge
  obtain ⟨below, held, rfl, hle⟩ := multiples_le hbelow
    (Nat.le_trans hfew (by decide)) (by omega) edge hedge
  rw [hupper, Binary64.finite_lt_finite_iff]
  omega

end BinSpec

end HeapLatency
