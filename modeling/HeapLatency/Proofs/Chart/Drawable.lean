import HeapLatency.Proofs.Bins.Bucketing
import HeapLatency.Proofs.Chart.Counts

/-!
# Charts that can be drawn

A chart that is built from events can be drawn, by either generator and on any canvas: it has
series, a heat map has its second axis and two series of one length, and wherever counting and
drawing look up an edge, a count, a label or a colour by its position, they find one.
-/

namespace HeapLatency

namespace Chart

/-! ## Both generators -/

/-- The generators accept a chart: neither has a fault, nor looks up anything that is not there. -/
structure Drawable (scale : LogScale) (chart : Chart) : Prop where
  svg : ∀ canvas, ∃ text, chart.toSvg scale canvas = .ok text
  json : ∃ json, chart.toJson = .ok json

theorem drawable_of_series {chart : Chart} (scale : LogScale) (hx : chart.xBins.Sound)
    (hkind : chart.isHeatMap = false) (haxis : chart.yBins = none) (hseries : chart.series ≠ []) :
    chart.Drawable scale := by
  have hplotted : chart.Plotted :=
    { series := hseries
      bars := fun _ => eachPlaced_of_pos hx.binCount_pos
      cells := fun hcells => absurd hcells (Bool.eq_false_iff.1 hkind) }
  obtain ⟨-, -, -, json, -, hjson, -⟩ := countsEach_of_sound hx hkind haxis hseries
  exact ⟨fun canvas => ⟨_, toSvg_eq_ok_iff.2 ⟨hplotted, rfl⟩⟩, json, hjson⟩

theorem drawable_of_pairs {chart : Chart} {yBins : BinSpec} {x y : LabeledSeries}
    (scale : LogScale) (hx : chart.xBins.Sound) (hy : yBins.Sound)
    (haxis : chart.yBins = some yBins) (hseries : chart.series = [x, y])
    (hlength : x.values.length = y.values.length) : chart.Drawable scale := by
  obtain ⟨joint, hcounted, -, -, json, hjson, -⟩ :=
    (countsPairs_of_sound hx hy haxis hseries hlength).counted
  obtain ⟨hpairs, hjoint⟩ := countPairs_eq_some_iff.1 hcounted
  have hplotted : chart.Plotted :=
    { series := by
        rw [hseries]
        exact List.cons_ne_nil _ _
      bars := fun _ => eachPlaced_of_pos hx.binCount_pos
      cells := fun _ => ⟨hpairs, yBins, joint, haxis, hjoint⟩ }
  exact ⟨fun canvas => ⟨_, toSvg_eq_ok_iff.2 ⟨hplotted, rfl⟩⟩, json, hjson⟩

/-! ## Charts of events -/

/-- What the program builds: a chart of one operation of classified events, a chart of both
operations of a trace, or a chart of one operation in several traces. -/
inductive Built (scale : LogScale) (binning : Binning) : Chart → Prop
  | latencyVsSize {name : String} {cutoffs : Cutoffs} {events : List Event}
      {operation : Operation} {chart : Chart}
      (h : latencyVsSize binning (.ofEvents name cutoffs events) operation = .ok chart) :
      Built scale binning chart
  | combined {trace : ClassifiedTrace} {chart : Chart}
      (h : combined binning trace = .ok chart) : Built scale binning chart
  | logComparison {token : RunToken} {traces : List (String × ClassifiedTrace)}
      {operation : Operation} {chart : Chart}
      (h : logComparison scale binning token traces operation = .ok chart) :
      Built scale binning chart

theorem drawable_latencyVsSize {binning : Binning} {name : String} {cutoffs : Cutoffs}
    {events : List Event} {operation : Operation} {chart : Chart} (scale : LogScale)
    (h : latencyVsSize binning (.ofEvents name cutoffs events) operation = .ok chart) :
    chart.Drawable scale := by
  obtain ⟨xBins, yBins, hx, hy, rfl⟩ := latencyVsSize_eq_ok_iff.1 h
  refine drawable_of_pairs scale (BinSpec.sound_of_meanScaled hx) (BinSpec.sound_of_meanScaled hy)
    rfl rfl ?_
  -- the events give each operation a latency and a size at a time
  change (samplesOf _).length = _
  rw [length_samplesOf, ClassifiedTrace.length_latencies_ofEvents,
    ClassifiedTrace.length_sizes_ofEvents]

theorem drawable_combined {binning : Binning} {trace : ClassifiedTrace} {chart : Chart}
    (scale : LogScale) (h : combined binning trace = .ok chart) : chart.Drawable scale := by
  obtain ⟨xBins, hx, rfl⟩ := combined_eq_ok_iff.1 h
  exact drawable_of_series scale (BinSpec.sound_of_sharedRange hx) rfl rfl nofun

theorem drawable_logComparison {scale : LogScale} {binning : Binning} {token : RunToken}
    {traces : List (String × ClassifiedTrace)} {operation : Operation} {chart : Chart}
    (h : logComparison scale binning token traces operation = .ok chart) :
    chart.Drawable scale := by
  obtain ⟨xBins, hx, rfl⟩ := logComparison_eq_ok_iff.1 h
  refine drawable_of_series scale (BinSpec.sound_of_logSpan hx) rfl rfl fun hnone => ?_
  have hnone : comparedSeries operation traces = [] := hnone
  rw [hnone] at hx
  exact BinSpec.logSpan_nil_ne_ok hx

/-- Whatever the events, the cutoffs and the binning, a chart that was built is drawn by either
generator on any canvas. -/
theorem drawable_of_built {scale : LogScale} {binning : Binning} {chart : Chart}
    (h : Built scale binning chart) : chart.Drawable scale := by
  cases h with
  | latencyVsSize h => exact drawable_latencyVsSize scale h
  | combined h => exact drawable_combined scale h
  | logComparison h => exact drawable_logComparison h

/-- Both operations, one of them once, with a latency of zero and one that is far above its
cutoff. -/
def sampleEvents : List Event :=
  [⟨.malloc, 1048576, 1, 0⟩, ⟨.malloc, 16, 2, 900000⟩, ⟨.free, 1048576, 1, 300⟩]

/-- A chart of each kind. The second trace of the comparison has no event of its operation. -/
theorem drawable_of_built_sample :
    let binning : Binning := { heatMapBins := 2, logBins := 2 }
    let traces := [("first", ClassifiedTrace.ofEvents "run_first.csv" {} sampleEvents),
      ("second", ClassifiedTrace.ofEvents "run_second.csv" {} [])]
    ∃ heatMap both comparison,
      latencyVsSize binning (.ofEvents "run_first.csv" {} sampleEvents) .malloc = .ok heatMap ∧
      heatMap.Drawable ⟨id, id⟩ ∧
      combined binning (.ofEvents "run_first.csv" {} sampleEvents) = .ok both ∧
      both.Drawable ⟨id, id⟩ ∧
      logComparison ⟨id, id⟩ binning ⟨"run"⟩ traces .free = .ok comparison ∧
      comparison.Drawable ⟨id, id⟩ := by
  intro binning traces
  obtain ⟨heatMap, hheatMap⟩ : ∃ chart,
      latencyVsSize binning (.ofEvents "run_first.csv" {} sampleEvents) .malloc = .ok chart :=
    exists_of_isOk (by decide +kernel)
  obtain ⟨both, hboth⟩ : ∃ chart,
      combined binning (.ofEvents "run_first.csv" {} sampleEvents) = .ok chart :=
    exists_of_isOk (by decide +kernel)
  obtain ⟨comparison, hcomparison⟩ : ∃ chart,
      logComparison ⟨id, id⟩ binning ⟨"run"⟩ traces .free = .ok chart :=
    exists_of_isOk (by decide +kernel)
  exact ⟨heatMap, both, comparison, hheatMap, drawable_of_built (.latencyVsSize hheatMap), hboth,
    drawable_of_built (.combined hboth), hcomparison,
    drawable_of_built (.logComparison hcomparison)⟩

end Chart

end HeapLatency
