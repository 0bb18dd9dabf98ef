import HeapLatency.Bins.Policy
import HeapLatency.Proofs.Results
import Mathlib.Data.List.Chain

/-!
# Sound bins

Every policy ends by checking its edges, so bins that any of them gives have at least two edges,
in strictly ascending order. What else a policy had to find out before it gave bins is said by
one lemma for each.
-/

namespace HeapLatency

namespace BinSpec

/-- At least one bin, and edges that ascend from each to the next. -/
structure Sound (spec : BinSpec) : Prop where
  two_le : 2 ≤ spec.edges.length
  ascending : spec.edges.IsChain (· < ·)

theorem Sound.binCount_pos {spec : BinSpec} (h : spec.Sound) : 0 < spec.binCount := by
  have := h.two_le
  rw [binCount]
  omega

theorem descent?_eq_none_iff {edges : List Binary64} :
    descent? edges = none ↔ edges.IsChain (· < ·) := by
  fun_induction descent? edges with
  | case1 lower upper edges h ih => rw [List.isChain_cons_cons, ih, and_iff_right h]
  | case2 lower upper edges h => simp [h]
  | case3 edges h =>
    match edges with
    | [] => simp
    | [edge] => simp
    | lower :: upper :: edges => exact absurd rfl (h lower upper edges)

theorem ofEdges_eq_ok_iff {edges : List Binary64} {step : Binary64} {logarithmic : Bool}
    {spec : BinSpec} :
    ofEdges edges step logarithmic = .ok spec ↔
      2 ≤ edges.length ∧ edges.IsChain (· < ·) ∧ spec = ⟨edges, step, logarithmic⟩ := by
  rw [← descent?_eq_none_iff, ofEdges]
  by_cases hshort : edges.length < 2
  · simp [hshort, Nat.not_le.2 hshort]
  · cases hdescent : descent? edges <;> simp [hshort, Nat.not_lt.1 hshort, eq_comm]

theorem sound_of_ofEdges {edges : List Binary64} {step : Binary64} {logarithmic : Bool}
    {spec : BinSpec} (h : ofEdges edges step logarithmic = .ok spec) : spec.Sound := by
  obtain ⟨hlength, hascending, rfl⟩ := ofEdges_eq_ok_iff.1 h
  exact ⟨hlength, hascending⟩

/-! ## Policies -/

theorem refuse_ne_ok {α : Type} {fault : RangeFault} {a : α} : refuse fault ≠ .ok a := nofun

theorem checkDivisions_eq_ok_iff {divisions : Nat} {u : Unit} :
    checkDivisions divisions = .ok u ↔ 2 ≤ divisions := by
  unfold checkDivisions
  split
  · exact iff_of_false refuse_ne_ok (by omega)
  · exact iff_of_true rfl (by omega)

theorem checkUpper_eq_ok_iff {upper : Binary64} {u : Unit} :
    checkUpper upper = .ok u ↔ upper.isFinite = true ∧ 0 < upper := by
  unfold checkUpper
  split
  · exact iff_of_true rfl (by simp_all)
  · exact iff_of_false refuse_ne_ok (by simp_all)

theorem checkBase_eq_ok_iff {base : Binary64} {u : Unit} :
    checkBase base = .ok u ↔ base.isFinite = true ∧ 0 < base := by
  unfold checkBase
  split
  · exact iff_of_true rfl (by simp_all)
  · exact iff_of_false refuse_ne_ok (by simp_all)

theorem meanScaled_eq_ok_iff {samples : List Binary64} {divisions : Nat} {spec : BinSpec} :
    meanScaled samples divisions = .ok spec ↔
      2 ≤ divisions ∧ ∃ mean, Binary64.mean? samples = some mean ∧
        (mean * 3).isFinite = true ∧ 0 < mean * 3 ∧
        ofEdges (multiples divisions (mean * 3 / .ofNat divisions))
          (mean * 3 / .ofNat divisions) false = .ok spec := by
  simp only [meanScaled, bind_eq_ok, checkDivisions_eq_ok_iff]
  cases Binary64.mean? samples with
  | none => simp [refuse_ne_ok]
  | some mean => simp [bind_eq_ok, checkUpper_eq_ok_iff, and_assoc]

theorem sharedRange_eq_ok_iff {series : List (List Binary64)} {divisions : Nat}
    {base : Binary64} {spec : BinSpec} :
    sharedRange series divisions base = .ok spec ↔
      2 ≤ divisions ∧ base.isFinite = true ∧ 0 < base ∧ series ≠ [] ∧
        ∃ upper range step, doubleMean 0 0 series = .ok upper ∧ range = upper.roundUp base ∧
          range.isFinite = true ∧ 0 < range ∧
          step = (range / .ofNat divisions).roundUp base ∧
          ofEdges (multiples ((range / step).ceil.toNatUpTo maxWord) step) step false =
            .ok spec := by
  simp only [sharedRange, bind_eq_ok, checkDivisions_eq_ok_iff, checkBase_eq_ok_iff]
  cases series with
  | nil => simp [refuse_ne_ok, bind_eq_ok]
  | cons samples series =>
    simp [bind_eq_ok, checkUpper_eq_ok_iff, and_assoc]

theorem dataSpan_eq_ok_iff {series : List (List Binary64)} {bins : Nat} {spec : BinSpec} :
    dataSpan series bins = .ok spec ↔
      0 < bins ∧ ∃ sample samples least greatest low high step,
        series.flatten = sample :: samples ∧
        least = samples.foldl Binary64.min sample ∧
        greatest = samples.foldl Binary64.max sample ∧
        least.isFinite = true ∧ greatest.isFinite = true ∧
        low = (if least.same greatest then least - .half else least) ∧
        high = (if least.same greatest then greatest + .half else greatest) ∧
        step = (high - low) / .ofNat bins ∧
        ofEdges ((List.range bins).map (fun i => low + .ofNat i * step) ++ [high]) step false =
          .ok spec := by
  unfold dataSpan
  by_cases hbins : bins = 0
  · simp [hbins, refuse_ne_ok]
  · rw [if_neg hbins]
    cases hflatten : series.flatten with
    | nil => simp [refuse_ne_ok]
    | cons sample samples =>
      by_cases hfinite : (samples.foldl Binary64.min sample).isFinite &&
          (samples.foldl Binary64.max sample).isFinite
      · rw [Bool.and_eq_true] at hfinite
        simp [Nat.pos_of_ne_zero hbins, hfinite]
      · simp only [hfinite, Bool.not_false, if_true, refuse_ne_ok, false_iff]
        rintro ⟨-, first, others, least, greatest, low, high, step, heq, rfl, rfl, hl, hg, -⟩
        cases heq
        exact hfinite (by rw [hl, hg]; rfl)

theorem toLogarithmic_eq_ok_iff {scale : LogScale} {spec result : BinSpec} :
    toLogarithmic scale spec = .ok result ↔
      0 < spec.first ∧ ∃ low step, low = scale.log10 spec.first ∧
        step = (scale.log10 spec.last - low) / .ofNat spec.binCount ∧
        ofEdges
            (spec.first ::
              (List.range (spec.binCount - 1)).map (fun i =>
                scale.pow10 (low + .ofNat (i + 1) * step)) ++ [spec.last])
            step true = .ok result := by
  unfold toLogarithmic
  split
  · rename_i hfirst
    simp [hfirst]
  · rename_i hfirst
    simp [hfirst, refuse_ne_ok]

theorem logSpan_eq_ok_iff {scale : LogScale} {series : List (List Binary64)} {bins : Nat}
    {spec : BinSpec} :
    logSpan scale series bins = .ok spec ↔
      ∃ linear, dataSpan series bins = .ok linear ∧ toLogarithmic scale linear = .ok spec := by
  exact bind_eq_ok

/-- Without series there is nothing to span. -/
theorem logSpan_nil_ne_ok {scale : LogScale} {bins : Nat} {spec : BinSpec} :
    logSpan scale [] bins ≠ .ok spec := by
  intro h
  obtain ⟨linear, hlinear, -⟩ := logSpan_eq_ok_iff.1 h
  obtain ⟨-, sample, samples, _, _, _, _, _, hflatten, -⟩ := dataSpan_eq_ok_iff.1 hlinear
  cases hflatten

theorem sound_of_meanScaled {samples : List Binary64} {divisions : Nat} {spec : BinSpec}
    (h : meanScaled samples divisions = .ok spec) : spec.Sound := by
  obtain ⟨-, mean, -, -, -, hedges⟩ := meanScaled_eq_ok_iff.1 h
  exact sound_of_ofEdges hedges

theorem sound_of_sharedRange {series : List (List Binary64)} {divisions : Nat}
    {base : Binary64} {spec : BinSpec} (h : sharedRange series divisions base = .ok spec) :
    spec.Sound := by
  obtain ⟨-, -, -, -, upper, range, step, -, -, -, -, -, hedges⟩ := sharedRange_eq_ok_iff.1 h
  exact sound_of_ofEdges hedges

theorem sound_of_dataSpan {series : List (List Binary64)} {bins : Nat} {spec : BinSpec}
    (h : dataSpan series bins = .ok spec) : spec.Sound := by
  obtain ⟨-, sample, samples, least, greatest, low, high, step, -, -, -, -, -, -, -, -, hedges⟩ :=
    dataSpan_eq_ok_iff.1 h
  exact sound_of_ofEdges hedges

theorem sound_of_toLogarithmic {scale : LogScale} {spec result : BinSpec}
    (h : toLogarithmic scale spec = .ok result) : result.Sound := by
  obtain ⟨-, low, step, -, -, hedges⟩ := toLogarithmic_eq_ok_iff.1 h
  exact sound_of_ofEdges hedges

theorem sound_of_logSpan {scale : LogScale} {series : List (List Binary64)} {bins : Nat}
    {spec : BinSpec} (h : logSpan scale series bins = .ok spec) : spec.Sound := by
  obtain ⟨linear, -, hresult⟩ := logSpan_eq_ok_iff.1 h
  exact sound_of_toLogarithmic hresult

end BinSpec

end HeapLatency
