import HeapLatency.Proofs.Bins.NonFinite
import HeapLatency.Proofs.Bins.Reordered
import HeapLatency.Proofs.Bins.Spanned
import HeapLatency.Proofs.Chart.Lookups
import HeapLatency.Proofs.Chart.Names
import Mathlib.Data.List.FinRange

/-!
# Comparisons

A chart that compares traces has bins from the least latency of all of them to the greatest. No
latency is clipped, so the bins show what is between their edges and nothing else. The bins do not
depend on the order of the traces, and neither does anything else in the chart but the order of its
series, its name, and the number in its title, which is that of the first trace.
-/

namespace HeapLatency

theorem mem_samplesOf {sample : Binary64} {latencies : List UInt64}
    (h : sample ∈ samplesOf latencies) : ∃ cycles ∈ latencies, sample = .ofNat cycles.toNat := by
  obtain ⟨cycles, hcycles, rfl⟩ := List.mem_map.1 h
  exact ⟨cycles, hcycles, rfl⟩

theorem flatten_map_samplesOf (series : List (List UInt64)) :
    (series.map samplesOf).flatten = samplesOf series.flatten := by
  rw [samplesOf, List.map_flatten]
  rfl

namespace Binary64

/-! ## Extremes without signs -/

/-- Without a minus sign, which a zero can have as well. -/
def Unsigned : Binary64 → Prop
  | .finite negative _ _ => negative = false
  | .infinite negative => negative = false
  | .nan => True

theorem unsigned_ofNat (n : Nat) : (ofNat n).Unsigned := by
  rw [ofNat, ofExact]
  split_ifs <;> rfl

theorem Alike.eq_of_unsigned {x y : Binary64} (h : x.Alike y) (hx : x.Unsigned)
    (hy : y.Unsigned) : x = y := by
  rcases h.eq_or_zeros with heq | ⟨s, t, hs, ht, rfl, rfl⟩
  · exact heq
  · obtain rfl : s = false := hx
    obtain rfl : t = false := hy
    rfl

/-- Without signs an extreme does not depend on the order of the samples. -/
theorem Picks.foldl_perm {beyond : Binary64 → Binary64 → Prop}
    {pick : Binary64 → Binary64 → Binary64} (h : Picks beyond pick)
    (halike : ∀ x y, beyond x y → beyond y x → x.Alike y) {samples others : List Binary64}
    (hunsigned : ∀ sample ∈ samples, sample.Unsigned) (hperm : samples.Perm others) :
    samples.foldl pick nan = others.foldl pick nan := by
  -- both picks are among the samples, where alike means equal
  have hsamples : ∀ sample ∈ nan :: samples, sample.Unsigned :=
    List.forall_mem_cons.2 ⟨trivial, hunsigned⟩
  have hothers := (h.foldl nan others).1
  rw [← (hperm.cons nan).mem_iff] at hothers
  exact (h.alike_foldl halike (hperm.cons nan)).eq_of_unsigned
    (hsamples _ (h.foldl nan samples).1) (hsamples _ hothers)

end Binary64

namespace BinSpec

theorem dataSpan_of_perm {series others : List (List Binary64)}
    (hunsigned : ∀ sample ∈ series.flatten, sample.Unsigned)
    (hperm : series.flatten.Perm others.flatten) (bins : Nat) :
    dataSpan series bins = dataSpan others bins := by
  by_cases hbins : bins = 0
  · rw [hbins, dataSpan_zero, dataSpan_zero]
  · by_cases hnone : series.flatten = []
    · have hnone' : others.flatten = [] := (hnone ▸ hperm).nil_eq.symm
      rw [dataSpan_of_flatten_eq_nil hbins hnone, dataSpan_of_flatten_eq_nil hbins hnone']
    · have hsome : others.flatten ≠ [] := fun h => hnone (h ▸ hperm).eq_nil
      rw [dataSpan_eq hbins hnone, dataSpan_eq hbins hsome,
        Binary64.picks_min.foldl_perm (fun _ _ hyx hxy => Binary64.alike_of_le hxy hyx)
          hunsigned hperm,
        Binary64.picks_max.foldl_perm (fun _ _ hxy hyx => Binary64.alike_of_le hxy hyx)
          hunsigned hperm]

/-- Whole samples have no signs, so their span does not depend on their order. -/
theorem logSpan_samplesOf_perm {series others : List (List UInt64)}
    (hperm : series.flatten.Perm others.flatten) (scale : LogScale) (bins : Nat) :
    logSpan scale (series.map samplesOf) bins = logSpan scale (others.map samplesOf) bins := by
  have hunsigned : ∀ sample ∈ (series.map samplesOf).flatten, sample.Unsigned := by
    intro sample hmem
    rw [flatten_map_samplesOf] at hmem
    obtain ⟨cycles, -, rfl⟩ := mem_samplesOf hmem
    exact Binary64.unsigned_ofNat _
  have hsamples : (series.map samplesOf).flatten.Perm (others.map samplesOf).flatten := by
    rw [flatten_map_samplesOf, flatten_map_samplesOf]
    exact hperm.map _
  rw [logSpan, logSpan, dataSpan_of_perm hunsigned hsamples]

end BinSpec

namespace Chart

/-! ## Latencies within the edges -/

/-- The latencies of one operation in each of some traces. -/
def comparedLatencies (operation : Operation) (traces : List (String × ClassifiedTrace)) :
    List (List UInt64) :=
  traces.map fun trace => (trace.2.series operation).latencies

theorem map_values_comparedSeries (operation : Operation)
    (traces : List (String × ClassifiedTrace)) :
    (comparedSeries operation traces).map (·.values) =
      (comparedLatencies operation traces).map samplesOf := by
  rw [comparedSeries, comparedLatencies, List.map_map, List.map_map]
  rfl

theorem between_of_logSpan {scale : LogScale} {series : List (List UInt64)} {bins : Nat}
    {spec : BinSpec} (h : BinSpec.logSpan scale (series.map samplesOf) bins = .ok spec)
    {cycles : UInt64} (hmem : cycles ∈ series.flatten) :
    spec.first ≤ .ofNat cycles.toNat ∧ .ofNat cycles.toNat ≤ spec.last := by
  have hspans := (BinSpec.edges_of_logSpan h).2.2
  rw [flatten_map_samplesOf] at hspans
  exact hspans.between (List.mem_map_of_mem hmem) (Binary64.isNaN_ofExact _ _ _)

theorem pos_of_logSpan {scale : LogScale} {series : List (List UInt64)} {bins : Nat}
    {spec : BinSpec} (h : BinSpec.logSpan scale (series.map samplesOf) bins = .ok spec)
    {cycles : UInt64} (hmem : cycles ∈ series.flatten) : 0 < cycles := by
  obtain ⟨linear, hlinear, hresult⟩ := BinSpec.logSpan_eq_ok_iff.1 h
  have hpos : 0 < linear.first := (BinSpec.toLogarithmic_eq_ok_iff.1 hresult).1
  rw [← (BinSpec.edges_of_toLogarithmic (BinSpec.sound_of_dataSpan hlinear) hresult).2.1] at hpos
  have hlatency := Binary64.lt_of_lt_of_le hpos (between_of_logSpan h hmem).1
  rw [UInt64.pos_iff_ne_zero]
  rintro rfl
  exact Binary64.lt_irrefl hlatency

theorem mem_flatten_comparedLatencies {operation : Operation}
    {traces : List (String × ClassifiedTrace)} {trace : String × ClassifiedTrace} {cycles : UInt64}
    (htrace : trace ∈ traces) (hcycles : cycles ∈ (trace.2.series operation).latencies) :
    cycles ∈ (comparedLatencies operation traces).flatten :=
  List.mem_flatten.2 ⟨_, List.mem_map.2 ⟨trace, htrace, rfl⟩, hcycles⟩

/-- Every latency that a comparison shows is positive and within the edges of the bins, and the
counts of each trace say how many of its latencies each bin holds. -/
theorem comparison_unclipped {scale : LogScale} {binning : Binning} {token : RunToken}
    {traces : List (String × ClassifiedTrace)} {operation : Operation} {chart : Chart}
    (h : logComparison scale binning token traces operation = .ok chart) :
    (∀ trace ∈ traces, ∀ cycles ∈ (trace.2.series operation).latencies,
      0 < cycles ∧ chart.xBins.Within (.ofNat cycles.toNat)) ∧
    chart.countEach = .ok chart.histograms ∧
    chart.histograms.map (·.counts) = traces.map fun trace =>
      (List.range chart.xBins.binCount).map fun bin =>
        (trace.2.series operation).latencies.countP fun cycles =>
          chart.xBins.Holds bin (.ofNat cycles.toNat) := by
  obtain ⟨xBins, hbins, rfl⟩ := logComparison_eq_ok_iff.1 h
  rw [map_values_comparedSeries] at hbins
  have hsound := BinSpec.sound_of_logSpan hbins
  have hbetween : ∀ trace ∈ traces, ∀ cycles ∈ (trace.2.series operation).latencies,
      xBins.first ≤ .ofNat cycles.toNat ∧ .ofNat cycles.toNat ≤ xBins.last :=
    fun trace htrace cycles hcycles =>
      between_of_logSpan hbins (mem_flatten_comparedLatencies htrace hcycles)
  refine ⟨?_, countEach_eq (eachPlaced_of_pos hsound.binCount_pos), ?_⟩
  · intro trace htrace cycles hcycles
    obtain ⟨hfirst, hlast⟩ := hbetween trace htrace cycles hcycles
    exact ⟨pos_of_logSpan hbins (mem_flatten_comparedLatencies htrace hcycles),
      hsound.within hfirst hlast⟩
  · -- without clipping the bin of a sample is the one whose edges it lies between
    rw [histograms, comparedSeries, List.map_map, List.map_map]
    apply List.map_congr_left
    intro trace htrace
    have hwithin : ∀ sample ∈ samplesOf (trace.2.series operation).latencies,
        xBins.first ≤ sample ∧ sample ≤ xBins.last := by
      intro sample hsample
      obtain ⟨cycles, hcycles, rfl⟩ := mem_samplesOf hsample
      exact hbetween trace htrace cycles hcycles
    rw [Function.comp_apply, Function.comp_apply, BinSpec.counts_of_within hsound hwithin]
    simp only [samplesOf, List.countP_map, Function.comp_def]

/-- A trace of allocations with the given latencies. -/
def sampleTrace (name : String) (latencies : List UInt64) : ClassifiedTrace :=
  .ofEvents name {} (latencies.map fun cycles => ⟨.malloc, 64, 0, cycles⟩)

/-- A run with two allocations in its first trace and a single one in its second. -/
def sampleRun : Fin 2 → String × ClassifiedTrace
  | 0 => ("tlsf", sampleTrace "run_a" [1, 100])
  | 1 => ("native", sampleTrace "run_b" [10])

theorem comparison_unclipped_sample :
    ∃ chart, logComparison BinSpec.sampleScale { logBins := 2 } ⟨"run"⟩ (List.ofFn sampleRun)
        .malloc = .ok chart ∧
      (∀ trace ∈ List.ofFn sampleRun, ∀ cycles ∈ (trace.2.series .malloc).latencies,
        0 < cycles ∧ chart.xBins.Within (.ofNat cycles.toNat)) ∧
      chart.countEach = .ok chart.histograms ∧
      chart.histograms.map (·.counts) = (List.ofFn sampleRun).map fun trace =>
        (List.range chart.xBins.binCount).map fun bin =>
          (trace.2.series .malloc).latencies.countP fun cycles =>
            chart.xBins.Holds bin (.ofNat cycles.toNat) := by
  obtain ⟨chart, hchart⟩ : ∃ chart, logComparison BinSpec.sampleScale { logBins := 2 } ⟨"run"⟩
      (List.ofFn sampleRun) .malloc = .ok chart := exists_of_isOk (by decide +kernel)
  exact ⟨chart, hchart, comparison_unclipped hchart⟩

/-! ## Order of the traces -/

def comparisonTitle (operation : Operation) (ops : Nat) : String :=
  natText ops ++ " " ++ operation.name ++ " ops latency in cycles [log scale]"

theorem comparisonTitle_inj {operation : Operation} {ops others : Nat} :
    comparisonTitle operation ops = comparisonTitle operation others ↔ ops = others := by
  constructor
  · intro h
    have htext := (String.append_left_inj _).1 ((String.append_left_inj _).1
      ((String.append_left_inj _).1 h))
    have hdigits := congrArg (fun text => Nat.ofDigitChars 10 text.toList 0) htext
    simpa [natText, Nat.ofDigitChars_toDigits] using hdigits
  · rintro rfl
    rfl

/-- How many operations the first trace has. -/
def leadOps (operation : Operation) (traces : List (String × ClassifiedTrace)) : Nat :=
  traces.head?.elim 0 fun trace => (trace.2.series operation).latencies.length

theorem head?_comparedSeries (operation : Operation) (traces : List (String × ClassifiedTrace)) :
    (comparedSeries operation traces).head?.elim 0 (·.values.length) =
      leadOps operation traces := by
  cases traces with
  | nil => rfl
  | cons trace traces => exact length_samplesOf _

theorem comparedSeries_ofFn (operation : Operation) {n : Nat}
    (traces : Fin n → String × ClassifiedTrace) :
    comparedSeries operation (List.ofFn traces) =
      List.ofFn fun i => ⟨(traces i).1, samplesOf ((traces i).2.series operation).latencies⟩ :=
  List.map_ofFn ..

/-- The chart of a comparison, once its bins are known. -/
def comparisonOver (token : RunToken) (traces : List (String × ClassifiedTrace))
    (operation : Operation) (xBins : BinSpec) : Chart where
  kind := .logComparison
  stem := comparisonStem token (traces.map (·.1)) operation
  title := comparisonTitle operation (leadOps operation traces)
  xLabel := "cycles spent (log scale)"
  yLabel := "op count"
  series := comparedSeries operation traces
  xBins
  yBins := none
  tickLabels := xBins.labels
  density := false

theorem logComparison_eq (scale : LogScale) (binning : Binning) (token : RunToken)
    (traces : List (String × ClassifiedTrace)) (operation : Operation) :
    logComparison scale binning token traces operation =
      (BinSpec.logSpan scale ((comparedSeries operation traces).map (·.values))
        binning.logBins).map (comparisonOver token traces operation) := by
  cases h : BinSpec.logSpan scale ((comparedSeries operation traces).map (·.values))
      binning.logBins with
  | ok xBins =>
    refine logComparison_eq_ok_iff.2 ⟨xBins, h, ?_⟩
    rw [head?_comparedSeries]
    rfl
  | error fault => exact bind_eq_error.2 (.inl h)

theorem logSpan_comparedSeries {traces others : List (String × ClassifiedTrace)}
    (h : traces.Perm others) (scale : LogScale) (operation : Operation) (bins : Nat) :
    BinSpec.logSpan scale ((comparedSeries operation traces).map (·.values)) bins =
      BinSpec.logSpan scale ((comparedSeries operation others).map (·.values)) bins := by
  rw [map_values_comparedSeries, map_values_comparedSeries]
  exact BinSpec.logSpan_samplesOf_perm (h.map _).flatten scale bins

/-- In another order the traces give the same chart, its series in that order: no fault depends on
the order, nor does anything but the name of the chart, which has the labels, and the number in
the title, which is that of the first trace. -/
theorem comparison_reordered (scale : LogScale) (binning : Binning) (token : RunToken) {n : Nat}
    (traces : Fin n → String × ClassifiedTrace) (order : Equiv.Perm (Fin n))
    (operation : Operation) :
    (∀ fault, logComparison scale binning token (List.ofFn traces) operation = .error fault ↔
      logComparison scale binning token (List.ofFn (traces ∘ order)) operation = .error fault) ∧
    ∀ chart, logComparison scale binning token (List.ofFn traces) operation = .ok chart →
      ∃ (entries : Fin n → LabeledSeries) (title : String),
        chart.series = List.ofFn entries ∧
        logComparison scale binning token (List.ofFn (traces ∘ order)) operation = .ok
          { chart with
            stem := comparisonStem token ((List.ofFn (traces ∘ order)).map (·.1)) operation
            title
            series := List.ofFn (entries ∘ order) } ∧
        (title = chart.title ↔
          leadOps operation (List.ofFn (traces ∘ order)) =
            leadOps operation (List.ofFn traces)) := by
  rw [logComparison_eq, logComparison_eq,
    logSpan_comparedSeries (Equiv.Perm.ofFn_comp_perm order traces)]
  cases hbins : BinSpec.logSpan scale
      ((comparedSeries operation (List.ofFn traces)).map (·.values)) binning.logBins with
  | error fault => exact ⟨fun _ => Iff.rfl, fun chart h => by cases h⟩
  | ok xBins =>
    refine ⟨fun fault => ⟨fun h => (by cases h), fun h => (by cases h)⟩, fun chart h => ?_⟩
    cases h
    refine ⟨_, comparisonTitle operation (leadOps operation (List.ofFn (traces ∘ order))),
      comparedSeries_ofFn operation traces, ?_, comparisonTitle_inj⟩
    rw [Except.map, comparisonOver, comparedSeries_ofFn]
    rfl

/-- The traces of the sample run the other way round. -/
theorem comparison_reordered_sample :
    ∃ chart, logComparison BinSpec.sampleScale { logBins := 2 } ⟨"run"⟩ (List.ofFn sampleRun)
        .malloc = .ok chart ∧
      ∃ (entries : Fin 2 → LabeledSeries) (title : String),
        chart.series = List.ofFn entries ∧
        logComparison BinSpec.sampleScale { logBins := 2 } ⟨"run"⟩
            (List.ofFn (sampleRun ∘ Equiv.swap 0 1)) .malloc = .ok
          { chart with
            stem := "run_native_vs_tlsf_malloc_op_hist_plot"
            title
            series := [entries 1, entries 0] } ∧
        title ≠ chart.title := by
  obtain ⟨chart, hchart⟩ : ∃ chart, logComparison BinSpec.sampleScale { logBins := 2 } ⟨"run"⟩
      (List.ofFn sampleRun) .malloc = .ok chart := exists_of_isOk (by decide +kernel)
  obtain ⟨entries, title, hseries, hother, htitle⟩ :=
    (comparison_reordered BinSpec.sampleScale { logBins := 2 } ⟨"run"⟩ sampleRun (Equiv.swap 0 1)
      .malloc).2 chart hchart
  refine ⟨chart, hchart, entries, title, hseries, hother, ?_⟩
  rw [ne_eq, htitle]
  decide +kernel

/-- The title counts the allocations of the first trace, of which the two have not as many. -/
theorem comparison_title_of_first :
    ∃ chart other,
      logComparison BinSpec.sampleScale { logBins := 2 } ⟨"run"⟩ (List.ofFn sampleRun) .malloc =
        .ok chart ∧
      logComparison BinSpec.sampleScale { logBins := 2 } ⟨"run"⟩
          (List.ofFn (sampleRun ∘ Equiv.swap 0 1)) .malloc = .ok other ∧
      chart.title = "2 malloc ops latency in cycles [log scale]" ∧
      other.title = "1 malloc ops latency in cycles [log scale]" := by
  have hfirst : (logComparison BinSpec.sampleScale { logBins := 2 } ⟨"run"⟩ (List.ofFn sampleRun)
      .malloc).toOption.map (·.title) = some "2 malloc ops latency in cycles [log scale]" := by
    decide +kernel
  have hsecond : (logComparison BinSpec.sampleScale { logBins := 2 } ⟨"run"⟩
      (List.ofFn (sampleRun ∘ Equiv.swap 0 1)) .malloc).toOption.map (·.title) =
      some "1 malloc ops latency in cycles [log scale]" := by
    decide +kernel
  obtain ⟨chart, hchart, htitle⟩ := exists_of_toOption_map hfirst
  obtain ⟨other, hother, htitle'⟩ := exists_of_toOption_map hsecond
  exact ⟨chart, other, hchart, hother, htitle, htitle'⟩

end Chart

end HeapLatency
