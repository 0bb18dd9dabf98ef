import HeapLatency.Proofs.Bins.Policies
import HeapLatency.Proofs.Number.Alike

/-!
# Bins of reordered samples

Bins for several series do not depend on the order in which the series are given. Where the bins
span the samples, it does not even matter to which series a sample belongs. The extremes that the
edges go by may be zeros of different signs, so edges are compared as numbers.
-/

namespace HeapLatency

/-- Positive finite numbers lie a finite distance apart on the scale. -/
def LogScale.FiniteDistances (scale : LogScale) : Prop :=
  ∀ x y : Binary64, x.isFinite = true → y.isFinite = true → 0 < x → 0 < y →
    (scale.log10 y - scale.log10 x).isFinite = true

namespace Binary64

variable {x y : Binary64}

theorem Alike.ceil (h : x.Alike y) : x.ceil.Alike y.ceil := by
  rcases h.eq_or_zeros with rfl | ⟨s, t, hs, ht, rfl, rfl⟩
  · exact Alike.refl _
  · have hwhole (s : Bool) (hs : Held 0) : (finite s 0 hs).ceil = ofExact s 0 1 := by
      simp [Binary64.ceil]
    rw [hwhole, hwhole]
    exact alike_ofExact_zero Nat.one_pos

theorem Alike.roundUp (h : x.Alike y) (base : Binary64) :
    (x.roundUp base).Alike (y.roundUp base) := by
  have hquotient := (h.div_left base).ceil
  rw [Binary64.roundUp, Binary64.roundUp, mul_comm, mul_comm _ base]
  exact hquotient.mul_right base

theorem isNaN_ofExact (negative : Bool) (num den : Nat) :
    (ofExact negative num den).isNaN = false := by
  rw [ofExact]
  split <;> rfl

theorem isNaN_div_ofNat (hx : x.isFinite = true) {n : Nat} (hn : 0 < n) :
    (x / ofNat n).isNaN = false := by
  cases x with
  | nan => cases hx
  | infinite negative => cases hx
  | finite s a ha =>
    cases hdivisor : ofNat n with
    | infinite t => exact isNaN_ofExact (s != t) 0 1
    | nan =>
      have hnumber := isNaN_ofExact false (n * unitsPerOne) 1
      rw [← ofNat, hdivisor] at hnumber
      cases hnumber
    | finite t b hb =>
      have hone : unitsPerOne ≤ b := by
        rw [units_of_ofExact hdivisor]
        apply le_roundMagnitude Nat.one_pos held_unitsPerOne.aligned
        rw [Nat.mul_one]
        exact Nat.le_mul_of_pos_left _ hn
      show (if b = 0 then _ else ofExact (s != t) _ _).isNaN = false
      rw [if_neg (Nat.ne_of_gt (Nat.lt_of_lt_of_le unitsPerOne_pos hone))]
      exact isNaN_ofExact _ _ _

end Binary64

namespace BinSpec

/-! ## Comparing bins -/

/-- The same bins when their numbers are compared, so that both zeros are equal. -/
structure Same (spec other : BinSpec) : Prop where
  edges : List.Forall₂ (fun edge edge' => edge.same edge' = true) spec.edges other.edges
  step : spec.step.same other.step = true
  logarithmic : spec.logarithmic = other.logarithmic

/-- Both are refused, or both give the same bins. -/
inductive Agree : Except BinError BinSpec → Except BinError BinSpec → Prop where
  | refused (fault other : BinError) : Agree (.error fault) (.error other)
  | given {spec other : BinSpec} (same : spec.Same other) : Agree (.ok spec) (.ok other)

theorem agree_of_imp {first second : Except BinError BinSpec}
    (hfirst : ∀ spec, first = .ok spec → ∃ other, second = .ok other ∧ spec.Same other)
    (hsecond : ∀ spec, second = .ok spec → ∃ other, first = .ok other) : Agree first second := by
  cases first with
  | ok spec =>
    obtain ⟨other, rfl, hsame⟩ := hfirst spec rfl
    exact .given hsame
  | error fault =>
    cases second with
    | ok spec =>
      obtain ⟨other, hother⟩ := hsecond spec rfl
      cases hother
    | error other => exact .refused fault other

theorem same_refl {spec : BinSpec} (hedges : ∀ edge ∈ spec.edges, edge.isFinite = true)
    (hstep : spec.step.isNaN = false) : spec.Same spec where
  edges := List.forall₂_same.2 fun edge hedge =>
    Binary64.same_self (Binary64.isNaN_of_isFinite (hedges edge hedge))
  step := Binary64.same_self hstep
  logarithmic := rfl

theorem isChain_of_alike {edges others : List Binary64}
    (halike : List.Forall₂ Binary64.Alike edges others) (h : edges.IsChain (· < ·)) :
    others.IsChain (· < ·) := by
  induction halike with
  | nil => exact .nil
  | cons hfirst hrest ih =>
    cases hrest with
    | nil => exact .singleton _
    | cons hsecond hrest =>
      rw [List.isChain_cons_cons] at h ⊢
      exact ⟨(hfirst.lt_iff hsecond).1 h.1, ih h.2⟩

/-! ## Shared ranges -/

/-- Twice the mean of samples, NaN if there are none. -/
def twiceMean (samples : List Binary64) : Binary64 :=
  Binary64.sum samples / .ofNat samples.length * 2

theorem doubleMean_eq_ok_iff {position : Nat} {greatest upper : Binary64}
    {series : List (List Binary64)} :
    doubleMean position greatest series = .ok upper ↔
      (∀ samples ∈ series, samples ≠ []) ∧
        upper = (series.map twiceMean).foldl Binary64.max greatest := by
  induction series generalizing position greatest with
  | nil => simp [doubleMean, eq_comm]
  | cons samples series ih =>
    cases samples with
    | nil => simp [doubleMean, Binary64.mean?, refuse_ne_ok]
    | cons sample samples =>
      have hmean : Binary64.mean? (sample :: samples) =
          some (Binary64.sum (sample :: samples) / .ofNat (sample :: samples).length) := rfl
      rw [doubleMean, hmean, List.map_cons, List.foldl_cons]
      dsimp only
      rw [ih, List.forall_mem_cons, and_iff_right (List.cons_ne_nil sample samples)]
      rfl

theorem sharedRange_perm {series others : List (List Binary64)} (hperm : series.Perm others)
    {divisions : Nat} {base : Binary64} {spec : BinSpec}
    (h : sharedRange series divisions base = .ok spec) :
    sharedRange others divisions base = .ok spec := by
  obtain ⟨htwo, hbase, hbasePos, hsome, upper, range, step, hupper, rfl, hfinite, hpos, hstep,
    hedges⟩ := sharedRange_eq_ok_iff.1 h
  obtain ⟨hnonempty, rfl⟩ := doubleMean_eq_ok_iff.1 hupper
  -- the greatest mean may be a zero of either sign, but then there is no range
  have halike : ((series.map twiceMean).foldl Binary64.max 0).Alike
      ((others.map twiceMean).foldl Binary64.max 0) :=
    Binary64.picks_max.alike_foldl (fun _ _ => Binary64.alike_of_le) ((hperm.map twiceMean).cons 0)
  have hrange := (halike.roundUp base).eq_of_pos hpos
  refine sharedRange_eq_ok_iff.2 ⟨htwo, hbase, hbasePos, ?_, _, _, step,
    doubleMean_eq_ok_iff.2 ⟨fun samples hmem => hnonempty samples (hperm.mem_iff.2 hmem), rfl⟩,
    hrange, hfinite, hpos, hstep, hedges⟩
  rintro rfl
  exact hsome hperm.eq_nil

theorem agree_sharedRange {series others : List (List Binary64)} (hperm : series.Perm others)
    (divisions : Nat) (base : Binary64) :
    Agree (sharedRange series divisions base) (sharedRange others divisions base) := by
  refine agree_of_imp (fun spec h => ⟨spec, sharedRange_perm hperm h, ?_⟩)
    fun spec h => ⟨spec, sharedRange_perm hperm.symm h⟩
  obtain ⟨-, -, -, -, upper, range, step, -, -, -, -, -, hedges⟩ := sharedRange_eq_ok_iff.1 h
  refine same_refl (edges_of_sharedRange h).1 ?_
  obtain ⟨htwo, hascending, rfl⟩ := ofEdges_eq_ok_iff.1 hedges
  rw [length_multiples] at htwo
  obtain ⟨units, held, rfl, -⟩ := step_of_ascending htwo hascending
  rfl

/-! ## Spans -/

theorem alike_edges {low high step low' high' step' : Binary64} (hlow : low.Alike low')
    (hhigh : high.Alike high') (hstep : step.Alike step') (bins : Nat) :
    List.Forall₂ Binary64.Alike ((List.range bins).map (fun i => low + .ofNat i * step) ++ [high])
      ((List.range bins).map (fun i => low' + .ofNat i * step') ++ [high']) := by
  refine List.rel_append ?_ (.cons hhigh .nil)
  rw [List.forall₂_map_left_iff, List.forall₂_map_right_iff, List.forall₂_same]
  exact fun i _ => hlow.add (hstep.mul_right _)

/-- What the samples of a span decide of it: its bins, but for the signs of zeros. -/
theorem dataSpan_perm {series others : List (List Binary64)}
    (hperm : series.flatten.Perm others.flatten) {bins : Nat} {spec : BinSpec}
    (h : dataSpan series bins = .ok spec) :
    ∃ other, dataSpan others bins = .ok other ∧
      List.Forall₂ Binary64.Alike spec.edges other.edges ∧ spec.step.Alike other.step ∧
      spec.step.isFinite = true ∧ spec.logarithmic = other.logarithmic := by
  obtain ⟨hbins, sample, samples, least, greatest, low, high, step, hsamples, hleast, hgreatest,
    hleastFinite, hgreatestFinite, hlow, hhigh, hstep, hedges⟩ := dataSpan_eq_ok_iff.1 h
  obtain ⟨htwo, hascending, rfl⟩ := ofEdges_eq_ok_iff.1 hedges
  rw [hsamples] at hperm
  obtain ⟨sample', samples', hsamples'⟩ : ∃ sample' samples',
      others.flatten = sample' :: samples' :=
    List.exists_cons_of_ne_nil fun hnil => by rw [hnil] at hperm; cases hperm.eq_nil
  rw [hsamples'] at hperm
  obtain ⟨least', hleast'⟩ : ∃ least', least' = samples'.foldl Binary64.min sample' := ⟨_, rfl⟩
  obtain ⟨greatest', hgreatest'⟩ :
    ∃ greatest', greatest' = samples'.foldl Binary64.max sample' := ⟨_, rfl⟩
  have hleasts : least.Alike least' := by
    rw [hleast, hleast']
    exact Binary64.picks_min.alike_foldl (fun _ _ hxy hyx => Binary64.alike_of_le hyx hxy) hperm
  have hgreatests : greatest.Alike greatest' := by
    rw [hgreatest, hgreatest']
    exact Binary64.picks_max.alike_foldl (fun _ _ => Binary64.alike_of_le) hperm
  have hsame : least.same greatest = least'.same greatest' := hleasts.same_eq hgreatests
  obtain ⟨low', hlow'⟩ : ∃ low', low' = if least'.same greatest' then least' - .half else least' :=
    ⟨_, rfl⟩
  obtain ⟨high', hhigh'⟩ :
    ∃ high', high' = if least'.same greatest' then greatest' + .half else greatest' := ⟨_, rfl⟩
  have hlows : low.Alike low' := by
    rw [hlow, hlow', ← hsame]
    split
    · exact hleasts.sub (Binary64.Alike.refl _)
    · exact hleasts
  have hhighs : high.Alike high' := by
    rw [hhigh, hhigh', ← hsame]
    split
    · exact hgreatests.add_left _
    · exact hgreatests
  have hsteps : step.Alike ((high' - low') / .ofNat bins) := by
    rw [hstep]
    exact (hhighs.sub hlows).div_left _
  have halike := alike_edges hlows hhighs hsteps bins
  refine ⟨_, dataSpan_eq_ok_iff.2 ⟨hbins, sample', samples', least', greatest', low', high', _,
    hsamples', hleast', hgreatest', hleasts.isFinite_eq.symm.trans hleastFinite,
    hgreatests.isFinite_eq.symm.trans hgreatestFinite, hlow', hhigh', rfl,
    ofEdges_eq_ok_iff.2 ⟨halike.length_eq ▸ htwo, isChain_of_alike halike hascending, rfl⟩⟩,
    halike, hsteps, finite_step_of_span hbins hascending, rfl⟩

theorem same_of_alike {edges others : List Binary64}
    (h : List.Forall₂ Binary64.Alike edges others)
    (hfinite : ∀ edge ∈ edges, edge.isFinite = true) :
    List.Forall₂ (fun edge edge' => edge.same edge' = true) edges others := by
  induction h with
  | nil => exact .nil
  | cons halike _ ih =>
    rw [List.forall_mem_cons] at hfinite
    exact .cons (halike.same (Binary64.isNaN_of_isFinite hfinite.1)) (ih hfinite.2)

theorem agree_dataSpan {series others : List (List Binary64)}
    (hperm : series.flatten.Perm others.flatten) (bins : Nat) :
    Agree (dataSpan series bins) (dataSpan others bins) := by
  refine agree_of_imp (fun spec h => ?_) fun spec h => ?_
  · obtain ⟨other, hother, halike, hstep, hfinite, hlogarithmic⟩ := dataSpan_perm hperm h
    exact ⟨other, hother, same_of_alike halike (edges_of_dataSpan h).1,
      hstep.same (Binary64.isNaN_of_isFinite hfinite), hlogarithmic⟩
  · obtain ⟨other, hother, -⟩ := dataSpan_perm hperm.symm h
    exact ⟨other, hother⟩

/-! ## Logarithmic spans -/

theorem alike_getD {edges others : List Binary64} (h : List.Forall₂ Binary64.Alike edges others)
    (position : Nat) : (edges[position]?.getD .nan).Alike (others[position]?.getD .nan) := by
  induction h generalizing position with
  | nil => exact Binary64.Alike.refl _
  | cons hfirst _ ih =>
    cases position with
    | zero => exact hfirst
    | succ position => exact ih position

/-- A logarithmic axis begins above zero, where alike edges are the same number. -/
theorem toLogarithmic_of_alike {scale : LogScale} {spec other result : BinSpec}
    (hspec : spec.Proper) (halike : List.Forall₂ Binary64.Alike spec.edges other.edges)
    (h : toLogarithmic scale spec = .ok result) : toLogarithmic scale other = .ok result := by
  obtain ⟨hpos, -⟩ := toLogarithmic_eq_ok_iff.1 h
  have hcount : spec.binCount = other.binCount := by rw [binCount, binCount, halike.length_eq]
  have hfirst : spec.first = other.first := (alike_getD halike 0).eq_of_pos hpos
  have hlast : spec.last = other.last := by
    have hends : spec.last.Alike (other.edge spec.binCount) := alike_getD halike spec.binCount
    rw [hcount] at hends
    exact hends.eq_of_pos (Binary64.lt_trans hpos hspec.sound.first_lt_last)
  rw [toLogarithmic, hfirst, hlast, hcount] at h
  exact h

theorem logSpan_perm {scale : LogScale} {series others : List (List Binary64)}
    (hperm : series.flatten.Perm others.flatten) {bins : Nat} {spec : BinSpec}
    (h : logSpan scale series bins = .ok spec) : logSpan scale others bins = .ok spec := by
  obtain ⟨linear, hlinear, hspec⟩ := logSpan_eq_ok_iff.1 h
  obtain ⟨other, hother, halike, -⟩ := dataSpan_perm hperm hlinear
  have made : Made scale linear := .dataSpan hlinear
  have hproper := made.proper
  exact logSpan_eq_ok_iff.2 ⟨other, hother, toLogarithmic_of_alike hproper halike hspec⟩

theorem Proper.mem_ends {spec : BinSpec} (h : spec.Proper) :
    spec.first ∈ spec.edges ∧ spec.last ∈ spec.edges := by
  have htwo := h.two_le
  exact ⟨mem_edge (by omega), mem_edge (by rw [binCount]; omega)⟩

theorem agree_logSpan {scale : LogScale} (hscale : scale.FiniteDistances)
    {series others : List (List Binary64)} (hperm : series.flatten.Perm others.flatten)
    (bins : Nat) : Agree (logSpan scale series bins) (logSpan scale others bins) := by
  refine agree_of_imp (fun spec h => ⟨spec, logSpan_perm hperm h, ?_⟩)
    fun spec h => ⟨spec, logSpan_perm hperm.symm h⟩
  refine same_refl (edges_of_logSpan h).1 ?_
  obtain ⟨linear, hlinear, hspec⟩ := logSpan_eq_ok_iff.1 h
  have made : Made scale linear := .dataSpan hlinear
  have hproper := made.proper
  obtain ⟨hpos, low, step, rfl, rfl, hedges⟩ := toLogarithmic_eq_ok_iff.1 hspec
  obtain ⟨-, -, rfl⟩ := ofEdges_eq_ok_iff.1 hedges
  refine Binary64.isNaN_div_ofNat (hscale _ _ (hproper.finite _ hproper.mem_ends.1)
    (hproper.finite _ hproper.mem_ends.2) hpos
    (Binary64.lt_trans hpos hproper.sound.first_lt_last)) ?_
  exact (sound_of_dataSpan hlinear).binCount_pos

/-- Series of samples of any type, as the numbers that they stand for. -/
def numbersOf {α : Type} (value : α → Binary64) (series : List (List α)) : List (List Binary64) :=
  series.map fun samples => samples.map value

/-- Shared bins do not depend on the order of the series. Bins that span samples depend only on the
samples of all series together, on either scale. Either order is refused, or both give the same
bins; those of a shared range or on a logarithmic scale are even the same in every bit. -/
theorem bins_of_reordered {α : Type} (value : α → Binary64) :
    (∀ (series others : List (List α)) (divisions : Nat) (base : Binary64),
      series.Perm others →
        Agree (sharedRange (numbersOf value series) divisions base)
          (sharedRange (numbersOf value others) divisions base) ∧
        ∀ spec, sharedRange (numbersOf value series) divisions base = .ok spec ↔
          sharedRange (numbersOf value others) divisions base = .ok spec) ∧
    ∀ (series others : List (List α)) (bins : Nat), series.flatten.Perm others.flatten →
      Agree (dataSpan (numbersOf value series) bins) (dataSpan (numbersOf value others) bins) ∧
      ∀ scale : LogScale,
        (∀ spec, logSpan scale (numbersOf value series) bins = .ok spec ↔
          logSpan scale (numbersOf value others) bins = .ok spec) ∧
        (scale.FiniteDistances →
          Agree (logSpan scale (numbersOf value series) bins)
            (logSpan scale (numbersOf value others) bins)) := by
  have hflatten (series : List (List α)) :
      (numbersOf value series).flatten = series.flatten.map value := by
    rw [numbersOf, List.map_flatten]
  refine ⟨fun series others divisions base hperm => ?_, fun series others bins hperm => ?_⟩
  · have hnumbers := hperm.map fun samples => samples.map value
    exact ⟨agree_sharedRange hnumbers divisions base,
      fun spec => ⟨sharedRange_perm hnumbers, sharedRange_perm hnumbers.symm⟩⟩
  · have hnumbers : (numbersOf value series).flatten.Perm (numbersOf value others).flatten := by
      rw [hflatten, hflatten]
      exact hperm.map value
    exact ⟨agree_dataSpan hnumbers bins, fun scale =>
      ⟨fun spec => ⟨logSpan_perm hnumbers, logSpan_perm hnumbers.symm⟩,
        fun hscale => agree_logSpan hscale hnumbers bins⟩⟩

/-- A decimal scale for the numbers one, ten and a hundred. -/
def sampleScale : LogScale where
  log10 x := if x = 100 then 2 else if x = 10 then 1 else 0
  pow10 x := if x = 2 then 100 else if x = 1 then 10 else 1

theorem finiteDistances_sampleScale : sampleScale.FiniteDistances := by
  intro x y _ _ _ _
  simp only [sampleScale]
  split_ifs <;> decide +kernel

/-- Series in another order, zeros of both signs, and a sample that moves to the other series. -/
theorem bins_of_reordered_sample :
    ∃ shared spanned logarithmic,
      sharedRange (numbersOf id [[400, 600], [1000]]) 20 100 = .ok shared ∧
      sharedRange (numbersOf id [[1000], [400, 600]]) 20 100 = .ok shared ∧
      dataSpan (numbersOf id [[.zero false, 5], [.zero true]]) 2 = .ok spanned ∧
      Agree (.ok spanned) (dataSpan (numbersOf id [[.zero true], [5, .zero false]]) 2) ∧
      logSpan sampleScale (numbersOf id [[1], [100, 10]]) 2 = .ok logarithmic ∧
      logSpan sampleScale (numbersOf id [[10, 1], [100]]) 2 = .ok logarithmic ∧
      Agree (.ok logarithmic) (logSpan sampleScale (numbersOf id [[10, 1], [100]]) 2) := by
  obtain ⟨hshared, hspanned⟩ := bins_of_reordered (α := Binary64) id
  obtain ⟨shared, hsharedOk⟩ : ∃ shared,
      sharedRange (numbersOf id [[400, 600], [1000]]) 20 100 = .ok shared :=
    exists_of_isOk (by decide +kernel)
  obtain ⟨spanned, hspannedOk⟩ : ∃ spanned,
      dataSpan (numbersOf id [[.zero false, 5], [.zero true]]) 2 = .ok spanned :=
    exists_of_isOk (by decide +kernel)
  obtain ⟨logarithmic, hlogarithmicOk⟩ : ∃ logarithmic,
      logSpan sampleScale (numbersOf id [[1], [100, 10]]) 2 = .ok logarithmic :=
    exists_of_isOk (by decide +kernel)
  obtain ⟨-, hsharedOther⟩ := hshared [[400, 600], [1000]] [[1000], [400, 600]] 20 100
    (.swap _ _ _)
  obtain ⟨hspannedOther, -⟩ :=
    hspanned [[.zero false, 5], [.zero true]] [[.zero true], [5, .zero false]] 2
      (by decide +kernel)
  obtain ⟨-, hlogarithmic⟩ := hspanned [[1], [100, 10]] [[10, 1], [100]] 2 (by decide +kernel)
  obtain ⟨hlogarithmicOther, hagree⟩ := hlogarithmic sampleScale
  rw [hspannedOk] at hspannedOther
  have hagree := hagree finiteDistances_sampleScale
  rw [hlogarithmicOk] at hagree
  exact ⟨shared, spanned, logarithmic, hsharedOk, (hsharedOther shared).1 hsharedOk, hspannedOk,
    hspannedOther, hlogarithmicOk, (hlogarithmicOther logarithmic).1 hlogarithmicOk, hagree⟩

end BinSpec

end HeapLatency
