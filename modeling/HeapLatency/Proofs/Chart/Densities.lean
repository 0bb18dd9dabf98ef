import HeapLatency.Proofs.Bins.Bucketing
import HeapLatency.Proofs.Bins.Ranges
import HeapLatency.Proofs.Chart.Drawable
import HeapLatency.Proofs.Number.Nearest
import HeapLatency.Proofs.Number.Value
import Mathlib.Algebra.BigOperators.Ring.List
import Mathlib.Tactic.FieldSimp

/-!
# Densities of charts

The densities that a chart shows are finite numbers, and zero only where nothing was counted. The
bins of such a chart are multiples of a step that is not too small beside the range, as there are
not too many of them, so no width is lost in a quotient. Without rounding the densities of any bins
have an area of one.
-/

namespace HeapLatency

open Binary64

namespace BinSpec

/-! ## Least widths -/

variable {divisions base range step count : Nat} {upper : Binary64}

theorem Shared.range_lt (h : Shared divisions upper base range step count) :
    range < 1 <<< 54 * step := by
  obtain ⟨quotient, held, hquotient⟩ := h.exists_quotient
  have hcount := h.count_eq
  rw [hquotient] at hcount
  obtain ⟨hle, hfew⟩ := le_of_toNatUpTo_ceil hcount h.count_le
  by_contra hlarge
  rw [div_finite h.step_pos] at hquotient
  have hmany : 1 <<< 54 * unitsPerOne ≤ quotient := by
    rw [units_of_ofExact hquotient]
    apply le_roundMagnitude h.step_pos
    · rw [unitsPerOne, one_shiftLeft_mul]
      exact aligned_shiftLeft_of_le (by decide) _
    · rw [Nat.mul_right_comm]
      exact Nat.mul_le_mul_right _ (Nat.not_lt.1 hlarge)
  have hfewer : quotient ≤ 1 <<< 53 * unitsPerOne :=
    Nat.le_trans hle (Nat.mul_le_mul_right _ hfew)
  exact absurd (Nat.le_trans hmany hfewer) (by decide +kernel)

/-- The least width of bins that series of machine words share. -/
def leastWidth : Nat := 1 <<< 900

theorem aligned_leastWidth : leastWidth % spacing leastWidth = 0 := by
  rw [leastWidth]
  exact aligned_shiftLeft_of_le (k := 1) (by decide) 900

theorem Shared.leastWidth_le {units : Nat} {held : Held units}
    (h : Shared divisions (.finite false units held) base range step count)
    (hlarge : leastMean ≤ units) : leastWidth ≤ spacing step := by
  have hunits : 1 <<< 53 ≤ units := Nat.le_trans (by decide +kernel) hlarge
  refine Nat.le_of_mul_le_mul_left ?_ (show 0 < 1 <<< 160 * 2 ^ 53 by decide)
  calc 1 <<< 160 * 2 ^ 53 * leastWidth
      ≤ (1 <<< 53 - 1) * ((1 <<< 53 - 1) * leastMean) := by decide +kernel
    _ ≤ (1 <<< 53 - 1) * ((1 <<< 53 - 1) * units) :=
      Nat.mul_le_mul_left _ (Nat.mul_le_mul_left _ hlarge)
    _ ≤ 1 <<< 53 * (1 <<< 53 * range) := le_roundUp h.base_pos hunits h.range_pos h.range_eq
    _ ≤ 1 <<< 53 * (1 <<< 53 * (1 <<< 54 * step)) :=
      Nat.mul_le_mul_left _ (Nat.mul_le_mul_left _ (Nat.le_of_lt h.range_lt))
    _ = 1 <<< 160 * step := by
      rw [← Nat.mul_assoc, ← Nat.mul_assoc, one_shiftLeft_mul, one_shiftLeft_mul]
    _ ≤ 1 <<< 160 * (spacing step * 2 ^ 53) :=
      Nat.mul_le_mul_left _ (Nat.le_of_lt (units_lt_spacing_mul step))
    _ = 1 <<< 160 * 2 ^ 53 * spacing step := by ring

theorem Shared.spacing_le_sub {bin lower upperEdge : Nat} {hlower : Held lower}
    {hupper : Held upperEdge} (h : Shared divisions upper base range step count)
    (hbin : bin + 1 < count)
    (hlowerEq : ofNat bin * .finite false step h.step_held = .finite false lower hlower)
    (hupperEq : ofNat (bin + 1) * .finite false step h.step_held = .finite false upperEdge hupper)
    (hlt : lower < upperEdge) : spacing step ≤ upperEdge - lower := by
  have hfew := h.count_le
  have hstep {i units : Nat} {held : Held units} (hpos : 0 < i) (hi : i ≤ 1 <<< 53)
      (heq : ofNat i * .finite false step h.step_held = .finite false units held) :
      step ≤ units := by
    rw [ofNat_mul hi] at heq
    rw [units_of_ofExact heq]
    apply le_roundMagnitude Nat.one_pos h.step_held.aligned
    rw [Nat.mul_one]
    exact Nat.le_mul_of_pos_left step hpos
  rcases Nat.eq_zero_or_pos bin with rfl | hpos
  · -- the first edge is zero
    rw [ofNat_mul (Nat.zero_le _), Nat.zero_mul] at hlowerEq
    have hzero : lower ≤ 0 := by
      rw [units_of_ofExact hlowerEq]
      exact roundMagnitude_le Nat.one_pos (Nat.zero_mod _) (Nat.le_refl 0)
    have hfirst := hstep (Nat.succ_pos 0) (by decide) hupperEq
    have hspacing := spacing_le_of_pos h.step_pos
    omega
  · have hnext := add_spacing_le hlower.aligned hupper.aligned hlt
    have hspacing := spacing_le_spacing (hstep hpos (by omega) hlowerEq)
    omega

theorem edge_multiples {i : Nat} {step : Binary64} (hi : i < count) (logarithmic : Bool)
    (width : Binary64) : edge ⟨multiples count step, width, logarithmic⟩ i = ofNat i * step := by
  have hget : (multiples count step)[i]? = some (ofNat i * step) := by
    rw [multiples, List.getElem?_map, List.getElem?_range hi, Option.map_some]
  rw [edge, hget, Option.getD_some]

theorem exists_width_from {series : List (List UInt64)} {divisions : Nat} {base : Binary64}
    {spec : BinSpec} (h : sharedRange (series.map samplesOf) divisions base = .ok spec)
    (hword : ∀ cycles ∈ series, cycles.length < 1 <<< 64) {bin : Nat} (hbin : bin < spec.binCount) :
    ∃ width held, spec.width bin = .finite false width held ∧ leastWidth ≤ width ∧
      width ≤ greatestRange := by
  obtain ⟨width, held, heq, hpos, hle⟩ := exists_width h hbin
  obtain ⟨lower, upper, -, hlower, hupper, hlowerEq, hupperEq, hlt, -⟩ := exists_edges h hbin
  refine ⟨width, held, heq, ?_, hle⟩
  rw [width_eq hlowerEq hupperEq hlt] at heq
  obtain ⟨double, b, range, step, count, shared, hdouble, -, rfl⟩ := exists_shared h
  obtain ⟨units, hunits, rfl, hbelow, -⟩ := shared.exists_upper hdouble
  have hcount : bin + 1 < count := by
    rw [binCount, length_multiples] at hbin
    omega
  rw [edge_multiples (Nat.lt_of_succ_lt hcount)] at hlowerEq
  rw [edge_multiples hcount] at hupperEq
  have hgreatest := greatestDouble_of_doubleMean hdouble (finite_ne_zero (by omega))
  have hleast := shared.leastWidth_le (leastMean_le_of_greatestDouble hgreatest hword (by omega))
  have hapart := shared.spacing_le_sub hcount hlowerEq hupperEq hlt
  rw [units_of_ofExact heq]
  apply le_roundMagnitude Nat.one_pos aligned_leastWidth
  rw [Nat.mul_one]
  exact Nat.le_trans hleast hapart

/-! ## Widths over any numbers -/

/-- The width of a bin, from edges of any kind of number. -/
def widthOf {α : Type} [Sub α] (edge : Nat → α) (bin : Nat) : α := edge (bin + 1) - edge bin

/-- An edge as the rational number that it stands for. -/
def exactEdge (spec : BinSpec) (position : Nat) : ℚ := (spec.edge position).value?.getD 0

theorem Proper.value?_edge {spec : BinSpec} (h : spec.Proper) {position : Nat}
    (hposition : position < spec.edges.length) :
    (spec.edge position).value? = some (spec.exactEdge position) := by
  have hfinite := h.finite _ (mem_edge hposition)
  rw [exactEdge]
  cases hcase : spec.edge position with
  | finite negative units held => rfl
  | infinite negative => rw [hcase] at hfinite; cases hfinite
  | nan => rw [hcase] at hfinite; cases hfinite

theorem Proper.widthOf_pos {spec : BinSpec} (h : spec.Proper) {bin : Nat}
    (hbin : bin < spec.binCount) : 0 < widthOf spec.exactEdge bin := by
  have hlength := h.sound.length_edges
  have hlt := h.sound.edge_lt (Nat.lt_succ_self bin) (by omega)
  rw [lt_iff_of_value? (h.value?_edge (by omega)) (h.value?_edge (by omega))] at hlt
  exact sub_pos.2 hlt

end BinSpec

namespace Histogram

/-- The densities of counts, over widths of any kind of number. -/
def densityOf {α : Type} [Mul α] [Div α] (number : Nat → α) (width : Nat → α)
    (histogram : Histogram) : List α :=
  histogram.counts.mapIdx fun bin count => number count / (number histogram.total * width bin)

theorem density_eq_densityOf {bins : BinSpec} {histogram : Histogram} (h : histogram.total ≠ 0) :
    histogram.density bins = histogram.densityOf .ofNat (BinSpec.widthOf bins.edge) := if_neg h

theorem sum_densityOf {bins : BinSpec} {samples : List Binary64} {width : Nat → ℚ}
    {histogram : Histogram} (h : histogram.Exact bins samples) (hsome : samples ≠ [])
    (hwidth : ∀ bin < bins.binCount, width bin ≠ 0) :
    ((histogram.densityOf (fun n => (n : ℚ)) width).mapIdx fun bin density =>
      density * width bin).sum = 1 := by
  have htotal : (histogram.total : ℚ) ≠ 0 := by
    rw [Nat.cast_ne_zero, h.total]
    exact List.length_eq_zero_iff.not.2 hsome
  have hshares : ((histogram.densityOf (fun n => (n : ℚ)) width).mapIdx fun bin density =>
      density * width bin) =
        histogram.counts.map fun count : Nat => (count : ℚ) * (histogram.total : ℚ)⁻¹ := by
    rw [densityOf, List.mapIdx_mapIdx]
    apply List.ext_getElem
    · simp
    · intro bin hbin _
      have hne := hwidth bin (by simpa [h.length_counts] using hbin)
      simp only [List.getElem_mapIdx, List.getElem_map, Function.comp_apply]
      field_simp
  have hcast : (histogram.counts.map fun count : Nat => (count : ℚ)).sum = histogram.total := by
    rw [← h.sum_counts]
    exact (map_list_sum (Nat.castAddMonoidHom ℚ) histogram.counts).symm
  rw [hshares, List.sum_map_mul_right, hcast, mul_inv_cancel₀ htotal]

/-! ## Finite densities -/

variable {bins : BinSpec} {series : List (List UInt64)} {divisions : Nat} {base : Binary64}

/-- The divisor of a density is neither lost nor too large, and no count is too large for it. -/
theorem exists_density
    (h : BinSpec.sharedRange (series.map samplesOf) divisions base = .ok bins)
    (hword : ∀ cycles ∈ series, cycles.length < 1 <<< 64) {bin total count : Nat}
    (hbin : bin < bins.binCount) (htotal : 0 < total) (hmost : total < 1 <<< 64)
    (hcount : count ≤ total) :
    ∃ area density heldArea heldDensity,
      ofNat total * bins.width bin = .finite false area heldArea ∧ 0 < area ∧
      ofNat count / (ofNat total * bins.width bin) = .finite false density heldDensity := by
  obtain ⟨width, hwidth, heq, hleast, hle⟩ := BinSpec.exists_width_from h hword hbin
  obtain ⟨area, harea, hproduct, hfrom, -⟩ :=
    exists_area hwidth htotal hmost BinSpec.aligned_leastWidth hleast hle
  have hpos : 0 < area := Nat.lt_of_lt_of_le (by decide +kernel) hfrom
  obtain ⟨units, hunits, hnumber, hlarge⟩ : ∃ units held,
      ofNat count = .finite false units held ∧ units ≤ 1 <<< 1138 :=
    ofExact_le false (held_shift (by decide)) Nat.one_pos (by
      rw [Nat.mul_one]
      exact word_units_le (Nat.le_of_lt (Nat.lt_of_le_of_lt hcount hmost)))
  have hbound : units * unitsPerOne ≤ 1 <<< 1312 * area :=
    calc units * unitsPerOne ≤ 1 <<< 1138 * unitsPerOne := Nat.mul_le_mul_right _ hlarge
      _ = 1 <<< 1312 * BinSpec.leastWidth := by
        rw [unitsPerOne, BinSpec.leastWidth, one_shiftLeft_mul, one_shiftLeft_mul]
      _ ≤ 1 <<< 1312 * area := Nat.mul_le_mul_left _ hfrom
  obtain ⟨density, hdensity, hquotient, -⟩ :=
    ofExact_le false (held_shift (by decide)) hpos hbound
  rw [heq]
  refine ⟨area, density, harea, hdensity, hproduct, hpos, ?_⟩
  rw [hproduct, hnumber, div_finite hpos, hquotient]

/-- Densities of bins that are neither lost nor infinite. -/
structure Dense (histogram : Histogram) (bins : BinSpec) : Prop where
  found : histogram.density? bins = some (histogram.density bins)
  length_density : (histogram.density bins).length = bins.binCount
  /-- Every density is a quotient by a positive number. -/
  divisor : ∀ bin < bins.binCount, (ofNat histogram.total * bins.width bin).isFinite = true ∧
    0 < ofNat histogram.total * bins.width bin
  density : ∀ bin < bins.binCount, ∃ count density, histogram.counts[bin]? = some count ∧
    (histogram.density bins)[bin]? = some density ∧ density.isFinite = true ∧ 0 ≤ density ∧
    (density = 0 ↔ count = 0)

theorem length_pos_of_sharedRange
    (h : BinSpec.sharedRange (series.map samplesOf) divisions base = .ok bins)
    {cycles : List UInt64} (hcycles : cycles ∈ series) : 0 < cycles.length := by
  obtain ⟨_, _, _, _, _, _, hdouble, -⟩ := BinSpec.exists_shared h
  obtain ⟨means, hmeans, -⟩ := BinSpec.exists_means hdouble
  have hmem : mean? (samplesOf cycles) ∈ means.map some := by
    rw [← hmeans, List.map_map]
    exact List.mem_map_of_mem hcycles
  obtain ⟨mean, -, hmean⟩ := List.mem_map.1 hmem
  rw [← length_samplesOf]
  exact (mean?_eq_some_iff.1 hmean.symm).1

theorem dense_of_sharedRange
    (h : BinSpec.sharedRange (series.map samplesOf) divisions base = .ok bins)
    (hword : ∀ cycles ∈ series, cycles.length < 1 <<< 64) {cycles : List UInt64}
    (hcycles : cycles ∈ series) : (ofSeries bins (samplesOf cycles)).Dense bins := by
  have hbins := (BinSpec.sound_of_sharedRange h).binCount_pos
  have hexact := exact_ofSeries hbins (samplesOf cycles)
  have htotal : (ofSeries bins (samplesOf cycles)).total = cycles.length := length_samplesOf cycles
  have hpos := length_pos_of_sharedRange h hcycles
  have hmost := hword cycles hcycles
  rw [← htotal] at hpos hmost
  have hformula : (ofSeries bins (samplesOf cycles)).density bins =
      (ofSeries bins (samplesOf cycles)).densityOf .ofNat (BinSpec.widthOf bins.edge) :=
    density_eq_densityOf hpos.ne'
  constructor
  case found => exact density?_eq hexact.length_counts
  case length_density => rw [hformula, densityOf, List.length_mapIdx, hexact.length_counts]
  case divisor =>
    intro bin hbin
    obtain ⟨area, -, held, -, heq, hsome, -⟩ :=
      exists_density h hword hbin hpos hmost (Nat.zero_le _)
    rw [heq, zero_eq, finite_lt_finite_iff, Nat.zero_mul]
    exact ⟨rfl, hsome⟩
  case density =>
    intro bin hbin
    obtain ⟨count, hget, hcount⟩ : ∃ count, (ofSeries bins (samplesOf cycles)).counts[bin]? =
        some count ∧ count ≤ (ofSeries bins (samplesOf cycles)).total :=
      ⟨_, hexact.count bin hbin, List.countP_le_length⟩
    obtain ⟨-, density, -, held, -, -, heq⟩ := exists_density h hword hbin hpos hmost hcount
    have hfollows := (follows_density h hbin hpos hmost count).nonpos_iff
    refine ⟨count, .finite false density held, hget, ?_, ?_⟩
    · rw [hformula, densityOf, List.getElem?_mapIdx, hget]
      exact congrArg some heq
    · rw [← hfollows, heq, zero_eq, finite_le_finite_iff, finite_le_finite_iff, finite.injEq,
        Nat.zero_mul]
      exact ⟨rfl, Nat.zero_le _, by rw [and_iff_right rfl, Nat.le_zero]⟩

end Histogram

namespace Chart

/-- In a chart of both operations every density is a quotient by a positive number, is finite and
not negative, and is zero exactly where nothing was counted. This holds for any series that a
machine word counts. Without rounding, the densities of samples over the bins of any policy have an
area of one. -/
theorem densities_dense :
    (∀ (binning : Binning) (trace : ClassifiedTrace) (chart : Chart),
      combined binning trace = .ok chart →
      trace.malloc.latencies.length < 1 <<< 64 → trace.free.latencies.length < 1 <<< 64 →
        chart.series.length = 2 ∧
        ∀ series ∈ chart.series,
          Histogram.ofSeries? chart.xBins series.values =
            some (Histogram.ofSeries chart.xBins series.values) ∧
          (Histogram.ofSeries chart.xBins series.values).Dense chart.xBins) ∧
    ∀ (scale : LogScale) (spec : BinSpec) (samples : List Binary64), BinSpec.Made scale spec →
      samples ≠ [] →
        Histogram.ofSeries? spec samples = some (Histogram.ofSeries spec samples) ∧
        (Histogram.ofSeries spec samples).density? spec =
          some ((Histogram.ofSeries spec samples).density spec) ∧
        (Histogram.ofSeries spec samples).density spec =
          (Histogram.ofSeries spec samples).densityOf Binary64.ofNat (BinSpec.widthOf spec.edge) ∧
        (∀ position < spec.edges.length,
          (spec.edge position).value? = some (spec.exactEdge position)) ∧
        (((Histogram.ofSeries spec samples).densityOf (fun n => (n : ℚ))
          (BinSpec.widthOf spec.exactEdge)).mapIdx fun bin density =>
            density * BinSpec.widthOf spec.exactEdge bin).sum = 1 := by
  constructor
  · intro binning trace chart h hmalloc hfree
    obtain ⟨xBins, hbins, rfl⟩ := combined_eq_ok_iff.1 h
    have hshared : BinSpec.sharedRange
        ([trace.malloc.latencies, trace.free.latencies].map samplesOf) binning.combinedBins
        binning.roundingBase = .ok xBins := hbins
    have hword : ∀ cycles ∈ [trace.malloc.latencies, trace.free.latencies],
        cycles.length < 1 <<< 64 := by
      rw [List.forall_mem_cons, List.forall_mem_singleton]
      exact ⟨hmalloc, hfree⟩
    have hpos := (BinSpec.sound_of_sharedRange hbins).binCount_pos
    refine ⟨rfl, fun series hseries => ⟨Histogram.ofSeries?_eq hpos series.values, ?_⟩⟩
    revert series
    rw [List.forall_mem_cons, List.forall_mem_singleton]
    exact ⟨Histogram.dense_of_sharedRange hshared hword List.mem_cons_self,
      Histogram.dense_of_sharedRange hshared hword (List.mem_cons_of_mem _ List.mem_cons_self)⟩
  · intro scale spec samples made hsome
    have hproper := made.proper
    have hpos := hproper.sound.binCount_pos
    have hexact := Histogram.exact_ofSeries hpos samples
    refine ⟨Histogram.ofSeries?_eq hpos samples, Histogram.density?_eq hexact.length_counts,
      Histogram.density_eq_densityOf (List.length_eq_zero_iff.not.2 hsome),
      fun position => hproper.value?_edge, ?_⟩
    exact Histogram.sum_densityOf hexact hsome fun bin hbin => (hproper.widthOf_pos hbin).ne'

/-- Both operations of a trace, most bins of which are empty, and the area over bins around a single
latency, of which one sample is too large and one is no number. -/
theorem densities_dense_sample :
    ∃ both spec,
      combined {} (.ofEvents "run_first.csv" {} sampleEvents) = .ok both ∧
      both.series.length = 2 ∧
      (∀ series ∈ both.series,
        Histogram.ofSeries? both.xBins series.values =
          some (Histogram.ofSeries both.xBins series.values) ∧
        (Histogram.ofSeries both.xBins series.values).Dense both.xBins) ∧
      BinSpec.dataSpan [samplesOf [7]] 3 = .ok spec ∧
      (((Histogram.ofSeries spec [7, 8, .nan]).densityOf (fun n => (n : ℚ))
        (BinSpec.widthOf spec.exactEdge)).mapIdx fun bin density =>
          density * BinSpec.widthOf spec.exactEdge bin).sum = 1 := by
  obtain ⟨hdense, harea⟩ := densities_dense
  obtain ⟨both, hboth⟩ : ∃ chart,
      combined {} (.ofEvents "run_first.csv" {} sampleEvents) = .ok chart :=
    exists_of_isOk (by decide +kernel)
  obtain ⟨spec, hspec⟩ : ∃ spec, BinSpec.dataSpan [samplesOf [7]] 3 = .ok spec :=
    exists_of_isOk (by decide +kernel)
  obtain ⟨htwo, hseries⟩ := hdense _ _ _ hboth (by decide) (by decide)
  obtain ⟨-, -, -, -, hsum⟩ :=
    harea ⟨id, id⟩ spec [7, 8, .nan] (.dataSpan hspec) (List.cons_ne_nil _ _)
  exact ⟨both, spec, hboth, htwo, hseries, hspec, hsum⟩

end Chart

end HeapLatency
