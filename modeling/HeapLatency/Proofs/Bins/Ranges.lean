import HeapLatency.Proofs.Bins.Densities

/-!
# Where shared bins end

The edges of shared bins are meant to stop short of the range. Range and step are rounded products,
and the number of edges is a rounded quotient of the two, so this is so for the multiples of the
step but not for the edges, which are rounded once more: the last of them may fall on the end of the
range, and there may be one more than there are divisions. With a whole base and a range of at most
50 bits nothing is rounded that matters, and the edges are as meant.
-/

namespace HeapLatency

namespace Binary64

/-! ## Rounding up -/

theorem le_basesFor_mul (quotient : Nat) : quotient ≤ basesFor quotient * unitsPerOne := by
  have hdm := Nat.div_add_mod quotient unitsPerOne
  rw [Nat.mul_comm] at hdm
  rw [basesFor]
  split_ifs with hrest
  · have hlt := Nat.mod_lt quotient unitsPerOne_pos
    rw [Nat.succ_mul]
    omega
  · omega

theorem le_roundUp {units base result : Nat} {hunits : Held units} {hbase : Held base}
    {hresult : Held result} (hpos : 0 < base) (hlarge : 1 <<< 53 ≤ units) (hsome : 0 < result)
    (h : (finite false units hunits).roundUp (finite false base hbase) =
      finite false result hresult) :
    (1 <<< 53 - 1) * ((1 <<< 53 - 1) * units) ≤ 1 <<< 53 * (1 <<< 53 * result) := by
  by_cases hbelow : units ≤ base
  · -- one base is enough
    have heq := roundUp_eq_base (.finite rfl hbelow) hpos h hsome
    rw [finite.injEq] at heq
    rw [heq.2]
    exact Nat.mul_le_mul (by decide) (Nat.mul_le_mul (by decide) hbelow)
  · obtain ⟨quotient, whole, hquotient, hwhole, hrounded⟩ := exists_of_roundUp hpos h
    have hup : quotient ≤ whole := by
      rw [hwhole]
      apply le_roundMagnitude Nat.one_pos
      · rw [hquotient]
        exact aligned_roundMagnitude _ _
      · rw [Nat.mul_one]
        exact le_basesFor_mul quotient
    have hfirst : (1 <<< 53 - 1) * (units * unitsPerOne) ≤ 1 <<< 53 * (whole * base) := by
      have hnormal : 1 <<< 52 * base ≤ units * unitsPerOne := by
        rw [Nat.mul_comm units]
        exact Nat.mul_le_mul (by decide +kernel) (by omega)
      have herror := le_roundMagnitude_mul_of_le hpos hnormal
      rw [← hquotient] at herror
      exact Nat.le_trans herror (Nat.mul_le_mul_left _ (Nat.mul_le_mul_right base hup))
    have hsecond : (1 <<< 53 - 1) * (whole * base) ≤ 1 <<< 53 * (result * unitsPerOne) := by
      have hnormal : 1 <<< 52 * unitsPerOne ≤ whole * base := by
        refine Nat.le_of_mul_le_mul_left ?_ (show 0 < 1 <<< 53 by decide)
        calc 1 <<< 53 * (1 <<< 52 * unitsPerOne)
            = 1 <<< 52 * (1 <<< 53 * unitsPerOne) := by ring
          _ ≤ (1 <<< 53 - 1) * (units * unitsPerOne) :=
            Nat.mul_le_mul (by decide) (Nat.mul_le_mul_right _ hlarge)
          _ ≤ 1 <<< 53 * (whole * base) := hfirst
      have herror := le_roundMagnitude_mul_of_le unitsPerOne_pos hnormal
      rwa [← hrounded] at herror
    refine Nat.le_of_mul_le_mul_right ?_ unitsPerOne_pos
    calc (1 <<< 53 - 1) * ((1 <<< 53 - 1) * units) * unitsPerOne
        = (1 <<< 53 - 1) * ((1 <<< 53 - 1) * (units * unitsPerOne)) := by ring
      _ ≤ (1 <<< 53 - 1) * (1 <<< 53 * (whole * base)) := Nat.mul_le_mul_left _ hfirst
      _ = 1 <<< 53 * ((1 <<< 53 - 1) * (whole * base)) := by ring
      _ ≤ 1 <<< 53 * (1 <<< 53 * (result * unitsPerOne)) := Nat.mul_le_mul_left _ hsecond
      _ = 1 <<< 53 * (1 <<< 53 * result) * unitsPerOne := by ring

/-! ## Counting multiples -/

theorem finite_le_ofNat {units n : Nat} (held : Held units) (h : units ≤ n * unitsPerOne) :
    finite false units held ≤ ofNat n := by
  have hround : units ≤ roundMagnitude (n * unitsPerOne) 1 :=
    le_roundMagnitude Nat.one_pos held.aligned (by rwa [Nat.mul_one])
  by_cases hlt : roundMagnitude (n * unitsPerOne) 1 < overflow
  · rw [ofNat, ofExact_of_lt hlt]
    exact finite_le_finite_iff.2 hround
  · rw [ofNat, ofExact_of_le (Nat.not_lt.1 hlt)]
    exact le_iff.2 ⟨_, _, rfl, rfl, Int.ofNat_le.2 (Nat.le_of_lt held.bounded)⟩

theorem finite_ne_zero {units : Nat} {held : Held units} (h : 0 < units) :
    finite false units held ≠ 0 := by
  rw [zero_eq, Ne, finite.injEq]
  omega

theorem le_of_toNatUpTo_ceil {quotient count : Nat} {held : Held quotient}
    (h : (finite false quotient held).ceil.toNatUpTo maxWord = count)
    (hfew : count ≤ 1 <<< 53 + 1) : quotient ≤ count * unitsPerOne ∧ count ≤ 1 <<< 53 := by
  have hup := le_basesFor_mul quotient
  rw [ceil_eq] at h
  generalize basesFor quotient = bases at h hup
  by_cases hbases : bases ≤ 1 <<< 53
  · rw [ofNat_eq hbases, toNatUpTo_finite, Nat.mul_div_cancel _ unitsPerOne_pos] at h
    have heq : bases = count := by
      rw [← h]
      exact (Nat.min_eq_left (Nat.le_trans hbases (by decide))).symm
    exact ⟨heq ▸ hup, heq ▸ hbases⟩
  · -- from `2 ^ 53` on the format holds even numbers only
    have heven : spacing (1 <<< 53 * unitsPerOne) = 2 * unitsPerOne := by decide +kernel
    have hrounded : quotient ≤ roundMagnitude (bases * unitsPerOne) 1 :=
      le_roundMagnitude Nat.one_pos held.aligned (by rwa [Nat.mul_one])
    have hmany : 1 <<< 53 * unitsPerOne ≤ roundMagnitude (bases * unitsPerOne) 1 := by
      apply le_roundMagnitude Nat.one_pos (held_whole (Nat.le_refl _)).aligned
      rw [Nat.mul_one]
      exact Nat.mul_le_mul_right _ (by omega)
    have haligned := aligned_roundMagnitude (bases * unitsPerOne) 1
    rw [ofNat] at h
    by_cases hlt : roundMagnitude (bases * unitsPerOne) 1 < overflow
    · rw [ofExact_of_lt hlt, toNatUpTo_finite] at h
      generalize roundMagnitude (bases * unitsPerOne) 1 = whole at h hrounded hmany haligned
      obtain ⟨k, rfl⟩ : 2 * unitsPerOne ∣ whole := by
        rw [← heven]
        exact (spacing_dvd_spacing hmany).trans (Nat.dvd_of_mod_eq_zero haligned)
      rw [show 2 * unitsPerOne * k = 2 * k * unitsPerOne by ring] at h hrounded
      rw [Nat.mul_div_cancel _ unitsPerOne_pos] at h
      have heq : 2 * k = count := by
        have hword : 1 <<< 53 + 1 < maxWord := by decide
        have hleast : Min.min (2 * k) maxWord = count := h
        omega
      have h53 : (1 <<< 53 : Nat) = 9007199254740992 := by decide
      exact ⟨heq ▸ hrounded, by omega⟩
    · rw [ofExact_of_le (Nat.not_lt.1 hlt)] at h
      have hword : maxWord = count := h
      have hless : 1 <<< 53 + 1 < maxWord := by decide
      omega

theorem toNatUpTo_ceil_le_iff {quotient count : Nat} {held : Held quotient}
    (h : (finite false quotient held).ceil.toNatUpTo maxWord = count)
    (hfew : count ≤ 1 <<< 53 + 1) (n : Nat) :
    count ≤ n ↔ finite false quotient held ≤ ofNat n := by
  obtain ⟨hle, hmost⟩ := le_of_toNatUpTo_ceil h hfew
  constructor
  · intro hn
    exact finite_le_ofNat held (Nat.le_trans hle (Nat.mul_le_mul_right _ hn))
  · intro hn
    by_cases hheld : n ≤ 1 <<< 53
    · rw [ofNat_eq hheld, finite_le_finite_iff] at hn
      have hcount : (ofExact false quotient 1).ceil.toNatUpTo maxWord ≤ n :=
        toNatUpTo_ceil_le maxWord hheld Nat.one_pos (by rwa [Nat.mul_one])
      rwa [ofExact_of_held held, h] at hcount
    · omega

/-! ## Whole bases -/

theorem roundUp_whole {units whole result : Nat} {hunits : Held units}
    {hbase : Held (whole * unitsPerOne)} {hresult : Held result} (hpos : 0 < whole)
    (hfew : result < 1 <<< 53 * unitsPerOne)
    (h : (finite false units hunits).roundUp (finite false (whole * unitsPerOne) hbase) =
      finite false result hresult) :
    result = basesFor (roundMagnitude (units * unitsPerOne) (whole * unitsPerOne)) * whole *
      unitsPerOne := by
  obtain ⟨quotient, ceiling, hquotient, hceiling, hrounded⟩ :=
    exists_of_roundUp (Nat.mul_pos hpos unitsPerOne_pos) h
  rw [← hquotient]
  generalize basesFor quotient = bases at hceiling
  have hmost : (1 <<< 53 * unitsPerOne) % spacing (1 <<< 53 * unitsPerOne) = 0 :=
    (held_whole (Nat.le_refl _)).aligned
  have hproduct : ceiling * whole < 1 <<< 53 * unitsPerOne := by
    by_contra hlarge
    have hle : 1 <<< 53 * unitsPerOne ≤ result := by
      rw [hrounded]
      apply le_roundMagnitude unitsPerOne_pos hmost
      rw [← Nat.mul_assoc]
      exact Nat.mul_le_mul_right _ (Nat.not_lt.1 hlarge)
    omega
  have hbases : bases ≤ 1 <<< 53 := by
    by_contra hmany
    have hle : 1 <<< 53 * unitsPerOne ≤ ceiling := by
      rw [hceiling]
      apply le_roundMagnitude Nat.one_pos hmost
      rw [Nat.mul_one]
      exact Nat.mul_le_mul_right _ (by omega)
    exact absurd (Nat.le_trans hle (Nat.le_mul_of_pos_right ceiling hpos)) (Nat.not_le.2 hproduct)
  rw [roundMagnitude_one (held_whole hbases).aligned] at hceiling
  rw [hceiling, show bases * unitsPerOne * whole = bases * whole * unitsPerOne by ring] at hproduct
  have hmultiple : bases * whole ≤ 1 <<< 53 := Nat.le_of_lt (Nat.lt_of_mul_lt_mul_right hproduct)
  have hregroup : ceiling * (whole * unitsPerOne) = bases * whole * unitsPerOne * unitsPerOne := by
    rw [hceiling]
    ring
  rw [hrounded, hregroup]
  exact roundMagnitude_of_aligned unitsPerOne_pos (held_whole hmultiple).aligned

end Binary64

namespace BinSpec

open Binary64

/-! ## The greatest double mean -/

/-- The greatest double mean of series that all have one. -/
structure GreatestDouble (series : List (List UInt64)) (upper : Binary64) : Prop where
  mem : ∃ cycles ∈ series, ∃ mean, mean? (samplesOf cycles) = some mean ∧ upper = mean * 2
  le : ∀ cycles ∈ series, ∃ mean, mean? (samplesOf cycles) = some mean ∧ mean * 2 ≤ upper

theorem exists_means {series : List (List Binary64)} {position : Nat} {greatest upper : Binary64}
    (h : doubleMean position greatest series = .ok upper) :
    ∃ means : List Binary64, series.map mean? = means.map some ∧
      upper = (means.map (· * 2)).foldl max greatest := by
  induction series generalizing position greatest with
  | nil =>
    cases h
    exact ⟨[], rfl, rfl⟩
  | cons samples series ih =>
    rw [doubleMean] at h
    split at h
    · cases h
    · rename_i mean hmean
      obtain ⟨means, hmeans, hupper⟩ := ih h
      exact ⟨mean :: means, by rw [List.map_cons, hmean, hmeans, List.map_cons], hupper⟩

theorem greatestDouble_of_means {series : List (List UInt64)} {means : List Binary64}
    {upper : Binary64} (hmeans : series.map (mean? ∘ samplesOf) = means.map some)
    (hmem : upper ∈ means.map (· * 2))
    (hbeyond : ∀ double ∈ means.map (· * 2), double.isNaN = false → double ≤ upper) :
    GreatestDouble series upper := by
  constructor
  · obtain ⟨mean, hmean, hdouble⟩ := List.mem_map.1 hmem
    have hsome : some mean ∈ series.map (mean? ∘ samplesOf) := by
      rw [hmeans]
      exact List.mem_map_of_mem hmean
    obtain ⟨cycles, hcycles, heq⟩ := List.mem_map.1 hsome
    exact ⟨cycles, hcycles, mean, heq, hdouble.symm⟩
  · intro cycles hcycles
    have hsome : mean? (samplesOf cycles) ∈ means.map some := by
      rw [← hmeans]
      exact List.mem_map.2 ⟨cycles, hcycles, rfl⟩
    obtain ⟨mean, hmean, heq⟩ := List.mem_map.1 hsome
    exact ⟨mean, heq.symm, hbeyond _ (List.mem_map.2 ⟨mean, hmean, rfl⟩)
      (upTo_double (upTo_mean heq.symm)).isNaN⟩

theorem greatestDouble_of_doubleMean {series : List (List UInt64)} {upper : Binary64}
    (h : doubleMean 0 0 (series.map samplesOf) = .ok upper) (hpos : upper ≠ 0) :
    GreatestDouble series upper := by
  obtain ⟨means, hmeans, hupper⟩ := exists_means h
  rw [List.map_map] at hmeans
  obtain ⟨hmem, hbeyond⟩ := picks_max.foldl 0 (means.map (· * 2))
  rw [← hupper] at hmem hbeyond
  exact greatestDouble_of_means hmeans ((List.mem_cons.1 hmem).resolve_left hpos)
    fun double hdouble => hbeyond double (List.mem_cons_of_mem _ hdouble)

theorem leastMean_le_of_greatestDouble {series : List (List UInt64)} {units : Nat}
    {held : Held units} (h : GreatestDouble series (.finite false units held))
    (hword : ∀ cycles ∈ series, cycles.length < 1 <<< 64) (hpos : 0 < units) :
    leastMean ≤ units := by
  obtain ⟨cycles, hcycles, mean, hmean, hdouble⟩ := h.mem
  have hfrom : ZeroOrFrom leastMean (mean * 2) :=
    (zeroOrFrom_mean (hword cycles hcycles) hmean).mul_ofNat (by decide) (by decide)
  rw [← hdouble] at hfrom
  cases hfrom with
  | finite positive zeroOrFrom => exact zeroOrFrom.resolve_left hpos.ne'

/-! ## The number of edges -/

/-- Three roundings do not add up to a whole step where there are few of them. -/
theorem le_of_three_roundings {range step divisions : Nat} (hfew : divisions ≤ 1 <<< 50)
    (h : (1 <<< 53 - 1) * ((1 <<< 53 - 1) * ((1 <<< 53 - 1) * range)) ≤
      1 <<< 53 * (1 <<< 53 * (1 <<< 53 * (step * divisions)))) :
    range ≤ (divisions + 1) * step := by
  by_contra hpast
  have hscaled : (divisions + 1) * (step * divisions) ≤ divisions * range :=
    calc (divisions + 1) * (step * divisions) = divisions * ((divisions + 1) * step) := by ring
      _ ≤ divisions * range := Nat.mul_le_mul_left divisions (by omega)
  have hcube : (1 <<< 53 - 1) * ((1 <<< 53 - 1) * ((1 <<< 53 - 1) * (divisions + 1))) ≤
      1 <<< 53 * (1 <<< 53 * (1 <<< 53 * divisions)) := by
    refine Nat.le_of_mul_le_mul_right ?_ (show 0 < range by omega)
    calc (1 <<< 53 - 1) * ((1 <<< 53 - 1) * ((1 <<< 53 - 1) * (divisions + 1))) * range
        = (divisions + 1) * ((1 <<< 53 - 1) * ((1 <<< 53 - 1) * ((1 <<< 53 - 1) * range))) := by
          ring
      _ ≤ (divisions + 1) * (1 <<< 53 * (1 <<< 53 * (1 <<< 53 * (step * divisions)))) :=
        Nat.mul_le_mul_left _ h
      _ = 1 <<< 53 * (1 <<< 53 * (1 <<< 53 * ((divisions + 1) * (step * divisions)))) := by ring
      _ ≤ 1 <<< 53 * (1 <<< 53 * (1 <<< 53 * (divisions * range))) :=
        Nat.mul_le_mul_left _ (Nat.mul_le_mul_left _ (Nat.mul_le_mul_left _ hscaled))
      _ = 1 <<< 53 * (1 <<< 53 * (1 <<< 53 * divisions)) * range := by ring
  have h50 : (1 <<< 50 : Nat) = 1125899906842624 := by decide
  have h53 : (1 <<< 53 : Nat) = 9007199254740992 := by decide
  rw [h50] at hfew
  rw [h53] at hcube
  omega

variable {divisions base range step count : Nat} {upper : Binary64}

theorem Shared.count_le_of_le (h : Shared divisions upper base range step count) {n : Nat}
    (hn : n ≤ 1 <<< 53) (hle : range ≤ n * step) : count ≤ n := by
  have heq := h.count_eq
  rw [div_finite h.step_pos] at heq
  rw [← heq]
  apply toNatUpTo_ceil_le maxWord hn h.step_pos
  calc range * unitsPerOne ≤ n * step * unitsPerOne := Nat.mul_le_mul_right _ hle
    _ = n * unitsPerOne * step := by ring

theorem Shared.exists_quotient (h : Shared divisions upper base range step count) :
    ∃ quotient held, finite false range h.range_held / finite false step h.step_held =
      .finite false quotient held := by
  rw [div_finite h.step_pos]
  by_cases hlt : roundMagnitude (range * unitsPerOne) step < overflow
  · exact ⟨_, _, ofExact_of_lt hlt⟩
  · have heq := h.count_eq
    rw [div_finite h.step_pos, ofExact_of_le (Nat.not_lt.1 hlt)] at heq
    have hword : maxWord = count := heq
    have hfew := h.count_le
    have hless : 1 <<< 53 + 1 < maxWord := by decide
    omega

theorem Shared.count_le_iff (h : Shared divisions upper base range step count) (n : Nat) :
    count ≤ n ↔ finite false range h.range_held / finite false step h.step_held ≤ ofNat n := by
  obtain ⟨quotient, held, hquotient⟩ := h.exists_quotient
  have heq := h.count_eq
  rw [hquotient] at heq ⊢
  exact toNatUpTo_ceil_le_iff heq h.count_le n

theorem Shared.exists_division (h : Shared divisions upper base range step count) :
    ∃ division held, finite false range h.range_held / ofNat divisions =
      .finite false division held := by
  have htwo := h.two_le_divisions
  have hdivided : UpTo range (finite false range h.range_held / ofNat divisions) :=
    (UpTo.finite rfl (Nat.le_refl range)).div_ofNat h.range_held (by omega)
  have hstep := h.step_eq
  generalize finite false range h.range_held / ofNat divisions = quotient at hdivided hstep
  obtain @⟨negative, division, held, positive, -⟩ := hdivided
  rcases Nat.eq_zero_or_pos division with hzero | hpos
  · -- a step of nothing would not ascend
    obtain ⟨hnone, heq⟩ := roundUp_zero hzero h.base_pos
    rw [heq, finite.injEq] at hstep
    exact absurd hstep.2 h.step_pos.ne
  · obtain rfl := eq_false_of_signed hpos positive
    exact ⟨division, held, rfl⟩

theorem le_of_division {division : Nat} {hrange : Held range} {hdivision : Held division}
    (hpos : 0 < divisions) (hfew : divisions ≤ 1 <<< 53) (hlarge : 1 <<< 52 * divisions ≤ range)
    (h : finite false range hrange / ofNat divisions = .finite false division hdivision) :
    (1 <<< 53 - 1) * range ≤ 1 <<< 53 * (division * divisions) := by
  rw [div_ofNat hpos hfew] at h
  rw [units_of_ofExact h]
  exact le_roundMagnitude_mul_of_le hpos hlarge

/-- Above the least magnitudes there is at most one edge more than there are divisions. -/
theorem Shared.count_le_succ {units : Nat} {held : Held units}
    (h : Shared divisions (.finite false units held) base range step count)
    (hlarge : leastMean ≤ units) (hfew : divisions ≤ 1 <<< 50) : count ≤ divisions + 1 := by
  have htwo := h.two_le_divisions
  have hunits : 1 <<< 53 ≤ units := Nat.le_trans (by decide +kernel) hlarge
  have hrange := le_roundUp h.base_pos hunits h.range_pos h.range_eq
  have hmany : 1 <<< 53 * 1 <<< 50 ≤ range := by
    refine Nat.le_of_mul_le_mul_left (Nat.le_of_mul_le_mul_left ?_ (show 0 < 1 <<< 53 by decide))
      (show 0 < 1 <<< 53 by decide)
    calc 1 <<< 53 * (1 <<< 53 * (1 <<< 53 * 1 <<< 50))
        ≤ (1 <<< 53 - 1) * ((1 <<< 53 - 1) * leastMean) := by decide +kernel
      _ ≤ (1 <<< 53 - 1) * ((1 <<< 53 - 1) * units) :=
        Nat.mul_le_mul_left _ (Nat.mul_le_mul_left _ hlarge)
      _ ≤ 1 <<< 53 * (1 <<< 53 * range) := hrange
  have hparts : 1 <<< 53 * divisions ≤ range :=
    Nat.le_trans (Nat.mul_le_mul_left _ hfew) hmany
  have hheld : divisions ≤ 1 <<< 53 := Nat.le_trans hfew (by decide)
  obtain ⟨division, hdivision, heq⟩ := h.exists_division
  have hlost := le_of_division (by omega) hheld
    (Nat.le_trans (Nat.mul_le_mul_right _ (by decide)) hparts) heq
  have hnormal : 1 <<< 53 ≤ division := by
    rw [div_ofNat (by omega) hheld] at heq
    rw [units_of_ofExact heq]
    exact le_roundMagnitude (by omega) (aligned_shiftLeft_of_le (k := 1) (by decide) 53) hparts
  have hstep := h.step_eq
  rw [heq] at hstep
  have hsecond := le_roundUp h.base_pos hnormal h.step_pos hstep
  apply h.count_le_of_le (Nat.le_trans (Nat.add_le_add_right hfew 1) (by decide))
  apply le_of_three_roundings hfew
  calc (1 <<< 53 - 1) * ((1 <<< 53 - 1) * ((1 <<< 53 - 1) * range))
      ≤ (1 <<< 53 - 1) * ((1 <<< 53 - 1) * (1 <<< 53 * (division * divisions))) :=
        Nat.mul_le_mul_left _ (Nat.mul_le_mul_left _ hlost)
    _ = 1 <<< 53 * ((1 <<< 53 - 1) * ((1 <<< 53 - 1) * division) * divisions) := by ring
    _ ≤ 1 <<< 53 * (1 <<< 53 * (1 <<< 53 * step) * divisions) :=
      Nat.mul_le_mul_left _ (Nat.mul_le_mul_right _ hsecond)
    _ = 1 <<< 53 * (1 <<< 53 * (1 <<< 53 * (step * divisions))) := by ring

/-! ## Whole bases -/

theorem le_of_two_roundings {total steps whole division quotient : Nat} (hpos : 0 < whole)
    (hfew : total ≤ 1 <<< 50)
    (hdivision : (1 <<< 53 - 1) * (total * whole * unitsPerOne) ≤
      1 <<< 53 * (division * divisions))
    (hquotient : (1 <<< 53 - 1) * (division * unitsPerOne) ≤
      1 <<< 53 * (quotient * (whole * unitsPerOne)))
    (hsteps : quotient ≤ steps * unitsPerOne) : total ≤ divisions * steps := by
  have hone := unitsPerOne_pos
  have hsquare : (1 <<< 53 - 1) * ((1 <<< 53 - 1) * total) ≤
      1 <<< 53 * (1 <<< 53 * (divisions * steps)) := by
    refine Nat.le_of_mul_le_mul_right ?_ (Nat.mul_pos (Nat.mul_pos hpos hone) hone)
    calc (1 <<< 53 - 1) * ((1 <<< 53 - 1) * total) * (whole * unitsPerOne * unitsPerOne)
        = (1 <<< 53 - 1) * unitsPerOne * ((1 <<< 53 - 1) * (total * whole * unitsPerOne)) := by
          ring
      _ ≤ (1 <<< 53 - 1) * unitsPerOne * (1 <<< 53 * (division * divisions)) :=
        Nat.mul_le_mul_left _ hdivision
      _ = 1 <<< 53 * ((1 <<< 53 - 1) * (division * unitsPerOne)) * divisions := by ring
      _ ≤ 1 <<< 53 * (1 <<< 53 * (quotient * (whole * unitsPerOne))) * divisions :=
        Nat.mul_le_mul_right _ (Nat.mul_le_mul_left _ hquotient)
      _ ≤ 1 <<< 53 * (1 <<< 53 * (steps * unitsPerOne * (whole * unitsPerOne))) * divisions :=
        Nat.mul_le_mul_right _ (Nat.mul_le_mul_left _ (Nat.mul_le_mul_left _
          (Nat.mul_le_mul_right _ hsteps)))
      _ = 1 <<< 53 * (1 <<< 53 * (divisions * steps)) * (whole * unitsPerOne * unitsPerOne) := by
          ring
  have h50 : (1 <<< 50 : Nat) = 1125899906842624 := by decide
  have h53 : (1 <<< 53 : Nat) = 9007199254740992 := by decide
  rw [h50] at hfew
  rw [h53] at hsquare
  omega

theorem le_of_few_divisions {total whole division : Nat} (hsome : 0 < total)
    (hfewer : divisions ≤ total)
    (h : (1 <<< 53 - 1) * (total * whole * unitsPerOne) ≤ 1 <<< 53 * (division * divisions)) :
    1 <<< 52 * whole ≤ division := by
  refine Nat.le_of_mul_le_mul_left ?_ (Nat.mul_pos (show 0 < 1 <<< 53 by decide) hsome)
  calc 1 <<< 53 * total * (1 <<< 52 * whole) = (1 <<< 53 * 1 <<< 52) * (total * whole) := by ring
    _ ≤ ((1 <<< 53 - 1) * unitsPerOne) * (total * whole) :=
      Nat.mul_le_mul_right _ (by decide +kernel)
    _ = (1 <<< 53 - 1) * (total * whole * unitsPerOne) := by ring
    _ ≤ 1 <<< 53 * (division * divisions) := h
    _ ≤ 1 <<< 53 * (division * total) := Nat.mul_le_mul_left _ (Nat.mul_le_mul_left _ hfewer)
    _ = 1 <<< 53 * total * division := by ring

/-- With a whole base and a range of at most 50 bits, range and step are whole multiples of the base
exactly, and the step is not below its share of the range. -/
theorem Shared.whole {units whole : Nat} {held : Held units} (hpos : 0 < whole)
    (h : Shared divisions (.finite false units held) (whole * unitsPerOne) range step count)
    (hfew : range ≤ 1 <<< 50 * unitsPerOne) :
    (∃ steps, step = steps * unitsPerOne) ∧ range ≤ divisions * step := by
  have hone := unitsPerOne_pos
  have htwo := h.two_le_divisions
  have hmost : range < 1 <<< 53 * unitsPerOne :=
    Nat.lt_of_le_of_lt hfew (Nat.mul_lt_mul_of_pos_right (by decide) hone)
  have hshort : step < range := by
    have hcount := h.two_le_count
    exact Nat.lt_of_le_of_lt (Nat.le_mul_of_pos_left step (by omega)) h.last_lt
  have htotal := roundUp_whole hpos hmost h.range_eq
  generalize basesFor _ = total at htotal
  obtain ⟨division, hdivision, heq⟩ := h.exists_division
  have hstep := h.step_eq
  rw [heq] at hstep
  obtain ⟨quotient, -, hquotient, -, -⟩ :=
    exists_of_roundUp (Nat.mul_pos hpos hone) hstep
  have hsteps := roundUp_whole hpos (Nat.lt_trans hshort hmost) hstep
  rw [← hquotient] at hsteps
  have hup := le_basesFor_mul quotient
  generalize basesFor quotient = steps at hsteps hup
  refine ⟨⟨steps * whole, hsteps⟩, ?_⟩
  have htotalFew : total ≤ 1 <<< 50 := by
    refine Nat.le_of_mul_le_mul_right ?_ hone
    calc total * unitsPerOne ≤ total * whole * unitsPerOne :=
          Nat.mul_le_mul_right _ (Nat.le_mul_of_pos_right total hpos)
      _ = range := htotal.symm
      _ ≤ 1 <<< 50 * unitsPerOne := hfew
  -- were the step below its share, there would be few divisions, and nothing would be lost
  by_contra hbelow
  have hmore : divisions * steps < total := by
    refine Nat.lt_of_mul_lt_mul_right (a := whole * unitsPerOne) ?_
    calc divisions * steps * (whole * unitsPerOne) = divisions * step := by
          rw [hsteps]
          ring
      _ < range := Nat.not_le.1 hbelow
      _ = total * (whole * unitsPerOne) := by rw [htotal, Nat.mul_assoc]
  have hfewer : divisions ≤ total := by
    have hsome : 0 < steps := by
      rcases Nat.eq_zero_or_pos steps with rfl | hsome
      · rw [Nat.zero_mul, Nat.zero_mul] at hsteps
        exact absurd hsteps h.step_pos.ne'
      · exact hsome
    exact Nat.le_trans (Nat.le_mul_of_pos_right divisions hsome) (Nat.le_of_lt hmore)
  have hlarge : 1 <<< 52 * divisions ≤ range :=
    calc 1 <<< 52 * divisions ≤ unitsPerOne * total := Nat.mul_le_mul (by decide +kernel) hfewer
      _ ≤ total * whole * unitsPerOne := by
        rw [Nat.mul_comm]
        exact Nat.mul_le_mul_right _ (Nat.le_mul_of_pos_right total hpos)
      _ = range := htotal.symm
  have hdivided := le_of_division (by omega)
    (Nat.le_trans hfewer (Nat.le_trans htotalFew (by decide))) hlarge heq
  rw [htotal] at hdivided
  have hnormal : 1 <<< 52 * (whole * unitsPerOne) ≤ division * unitsPerOne := by
    rw [← Nat.mul_assoc]
    exact Nat.mul_le_mul_right _ (le_of_few_divisions (by omega) hfewer hdivided)
  have hrounded := le_roundMagnitude_mul_of_le (Nat.mul_pos hpos hone) hnormal
  rw [← hquotient] at hrounded
  exact absurd (le_of_two_roundings hpos htotalFew hdivided hrounded hup) (Nat.not_le.2 hmore)

theorem Shared.edge_lt_of_whole {steps : Nat}
    (h : Shared divisions upper base range (steps * unitsPerOne) count)
    (hfew : range ≤ 1 <<< 50 * unitsPerOne) :
    ∀ edge ∈ multiples count (.finite false _ h.step_held),
      edge < .finite false range h.range_held := by
  have hlast := h.last_lt
  rw [← Nat.mul_assoc] at hlast
  have hheld : Held ((count - 1) * steps * unitsPerOne) := by
    apply held_whole
    have hlt := Nat.lt_of_mul_lt_mul_right (Nat.lt_of_lt_of_le hlast hfew)
    exact Nat.le_trans (Nat.le_of_lt hlt) (by decide)
  intro edge hedge
  obtain ⟨below, held, rfl, hle⟩ := multiples_le hheld h.count_le
    (Nat.le_of_eq (Nat.mul_assoc _ _ _).symm) edge hedge
  exact finite_lt_finite_iff.2 (Nat.lt_of_le_of_lt hle hlast)

/-! ## Shared bins -/

theorem lt_of_mem_dropLast {edges : List Binary64} {edge greatest : Binary64}
    (hascending : edges.Pairwise (· < ·)) (hgreatest : ∀ edge ∈ edges, edge ≤ greatest)
    (h : edge ∈ edges.dropLast) : edge < greatest := by
  rcases List.eq_nil_or_concat' edges with rfl | ⟨front, last, rfl⟩
  · cases h
  · rw [List.dropLast_concat] at h
    have hlast : last ∈ front ++ [last] := List.mem_concat_self
    exact lt_of_lt_of_le
      ((List.pairwise_append.1 hascending).2.2 edge h last (List.mem_singleton_self last))
      (hgreatest last hlast)

/-- Shared bins of series of machine words, whose range is the greatest double mean rounded up to a
multiple of the base. No edge lies past the range, and only the last one may lie on its end. There
are as many edges as the quotient of range and step, rounded up; in not too many divisions this is
at most one more than there are divisions. With a whole base and a range of at most 50 bits every
edge is below the range, and there are at most as many edges as divisions. -/
theorem sharedRange_end {series : List (List UInt64)} {divisions : Nat} {base : Binary64}
    {spec : BinSpec} (h : sharedRange (series.map samplesOf) divisions base = .ok spec) :
    ∃ upper, GreatestDouble series upper ∧
      (∀ edge ∈ spec.edges, edge ≤ upper.roundUp base) ∧
      (∀ edge ∈ spec.edges.dropLast, edge < upper.roundUp base) ∧
      (∀ n, spec.edges.length ≤ n ↔ upper.roundUp base / spec.step ≤ .ofNat n) ∧
      (divisions ≤ 1 <<< 50 → (∀ cycles ∈ series, cycles.length < 1 <<< 64) →
        spec.edges.length ≤ divisions + 1) ∧
      ∀ whole ≤ 1 <<< 53, base = .ofNat whole → upper.roundUp base ≤ .ofNat (1 <<< 50) →
        (∀ edge ∈ spec.edges, edge < upper.roundUp base) ∧ spec.edges.length ≤ divisions := by
  have hascending := List.isChain_iff_pairwise.1 (sound_of_sharedRange h).ascending
  obtain ⟨upper, b, range, step, count, shared, hupper, rfl, rfl⟩ := exists_shared h
  obtain ⟨units, held, rfl, hbelow, -⟩ := shared.exists_upper hupper
  have hgreatest := greatestDouble_of_doubleMean hupper (finite_ne_zero (by omega))
  have hle : ∀ edge ∈ multiples count (.finite false step shared.step_held),
      edge ≤ .finite false range shared.range_held := by
    intro edge hedge
    obtain ⟨below, held, rfl, hbelow⟩ := shared.edge_le edge hedge
    exact finite_le_finite_iff.2 hbelow
  refine ⟨_, hgreatest, ?_⟩
  simp only [shared.range_eq, length_multiples]
  refine ⟨hle, fun edge => lt_of_mem_dropLast hascending hle, shared.count_le_iff, ?_, ?_⟩
  · intro hfew hword
    exact shared.count_le_succ (leastMean_le_of_greatestDouble hgreatest hword (by omega)) hfew
  · intro whole hwhole hbase hfew
    rw [ofNat_eq hwhole, finite.injEq] at hbase
    obtain ⟨-, rfl⟩ := hbase
    have hpos : 0 < whole := Nat.pos_of_mul_pos_right shared.base_pos
    rw [ofNat_eq (by decide), finite_le_finite_iff] at hfew
    obtain ⟨⟨steps, rfl⟩, hshare⟩ := shared.whole hpos hfew
    refine ⟨shared.edge_lt_of_whole hfew, ?_⟩
    by_cases hheld : divisions ≤ 1 <<< 53
    · exact shared.count_le_of_le hheld hshare
    · have hcount := shared.count_le
      omega

theorem sharedRange_end_sample :
    ∃ spec, sharedRange ([[400, 600], [1000]].map samplesOf) 20 100 = .ok spec ∧
      spec.edges.length ≤ 20 + 1 ∧
      ∃ upper, GreatestDouble [[400, 600], [1000]] upper ∧
        (∀ edge ∈ spec.edges, edge < upper.roundUp 100) ∧ spec.edges.length ≤ 20 := by
  obtain ⟨spec, hspec⟩ : ∃ spec,
      sharedRange ([[400, 600], [1000]].map samplesOf) 20 100 = .ok spec :=
    exists_of_isOk (by decide +kernel)
  obtain ⟨upper, hupper, -, -, -, hfew, hwhole⟩ := sharedRange_end hspec
  have hrange : upper.roundUp 100 ≤ ofNat (1 <<< 50) := by
    obtain ⟨cycles, hcycles, mean, hmean, rfl⟩ := hupper.mem
    have hmeans : ∀ cycles ∈ ([[400, 600], [1000]] : List (List UInt64)),
        (mean? (samplesOf cycles)).all fun mean =>
          decide ((mean * 2).roundUp 100 ≤ ofNat (1 <<< 50)) := by
      decide +kernel
    have hbounded := hmeans cycles hcycles
    rw [hmean, Option.all_some, decide_eq_true_iff] at hbounded
    exact hbounded
  exact ⟨spec, hspec, hfew (by decide) (by decide), upper, hupper,
    hwhole 100 (by decide) rfl hrange⟩

/-- With the base 1.2 the mean 4 has the range 8.4, which is seven steps. Seven steps divided by a
step are a little more than seven when computed, so the end of the range becomes the eighth edge. -/
theorem sharedRange_reaches_end :
    ∃ upper spec, GreatestDouble [[4]] upper ∧
      sharedRange ([[4]].map samplesOf) 7 (12 / 10) = .ok spec ∧
      (∃ edge ∈ spec.edges, ¬edge < upper.roundUp (12 / 10)) ∧ ¬spec.edges.length ≤ 7 := by
  have hupper : doubleMean 0 0 ([[4]].map samplesOf) = .ok 8 :=
    eq_ok_of_toOption (by decide +kernel)
  obtain ⟨spec, hspec, hparts⟩ : ∃ spec,
      sharedRange ([[4]].map samplesOf) 7 (12 / 10) = .ok spec ∧
        (spec.edges.any fun edge => !decide (edge < (8 : Binary64).roundUp (12 / 10)),
          spec.edges.length) = (true, 8) :=
    exists_of_toOption_map (by decide +kernel)
  rw [Prod.mk.injEq, List.any_eq_true] at hparts
  obtain ⟨⟨edge, hedge, hreached⟩, hlength⟩ := hparts
  refine ⟨8, spec, greatestDouble_of_doubleMean hupper (by decide +kernel), hspec,
    ⟨edge, hedge, ?_⟩, by omega⟩
  simpa using hreached

end BinSpec

end HeapLatency
