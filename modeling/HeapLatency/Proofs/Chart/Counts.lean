import HeapLatency.Proofs.Chart.Built
import HeapLatency.Proofs.Chart.Lookups
import HeapLatency.Proofs.Trace.Classified

/-!
# Counts of charts

The counts of a chart that is built add up to the numbers of events that it is about, and the
chart as JSON carries the same numbers.
-/

namespace HeapLatency.Chart

/-! ## Charts as JSON -/

theorem jointCounts_eq_none {chart : Chart} (haxis : chart.yBins = none)
    (hkind : chart.isHeatMap = false) : chart.jointCounts = .ok none := by
  have hjoint : chart.jointHistogram? = none := by rw [jointHistogram?, haxis]
  rw [jointCounts, countPairs_eq_none hjoint, hkind]
  rfl

theorem jointCounts_eq_some {chart : Chart} {joint : JointHistogram} (hplaced : chart.PairsPlaced)
    (hjoint : chart.jointHistogram? = some (.ok joint)) :
    chart.jointCounts = .ok (some joint.counts) := by
  rw [jointCounts, countPairs_eq hplaced hjoint]
  rfl

theorem seriesData_eq_ok_iff {chart : Chart} {items : List Json} :
    chart.seriesData = .ok items ↔ (chart.isHeatMap = false → chart.EachPlaced) ∧
      items = if chart.isHeatMap then [] else chart.series.map chart.seriesRecord := by
  rw [seriesData]
  cases hkind : chart.isHeatMap with
  | true => simp [pure_eq_ok]
  | false =>
    simp only [Bool.false_eq_true, if_false, forall_const]
    by_cases hplaced : chart.EachPlaced
    · rw [mapM_seriesJson hplaced, Except.ok.injEq, eq_comm]
      exact ⟨fun h => ⟨hplaced, h⟩, And.right⟩
    · rw [mapM_seriesJson_eq_error hplaced]
      exact iff_of_false nofun fun h => hplaced h.1

theorem toJson_eq_ok_iff {chart : Chart} {json : Json} :
    chart.toJson = .ok json ↔
      chart.series ≠ [] ∧ (chart.isHeatMap = false → chart.EachPlaced) ∧
        ∃ counts, chart.jointCounts = .ok counts ∧
          json = .record ([
            ("kind", .text chart.kind.name),
            ("title", .text chart.title),
            ("x_label", .text chart.xLabel),
            ("y_label", .text chart.yLabel),
            ("x_bins", chart.xBins.toJson),
            ("x_tick_labels", Json.texts chart.tickLabels)] ++
            (chart.yBins.map fun yBins => ("y_bins", yBins.toJson)).toList ++
            [("series",
              .list (if chart.isHeatMap then [] else chart.series.map chart.seriesRecord))] ++
            (counts.map fun counts => ("counts_2d", .list (counts.map Json.nats))).toList) := by
  rw [toJson]
  by_cases hseries : chart.series = []
  · simp [hseries, throw, throwThe, MonadExceptOf.throw, bind_eq_ok]
  · have hsome : ¬chart.series.isEmpty = true := by simpa using hseries
    rw [if_neg hsome]
    simp only [bind_eq_ok, pure_eq_ok, seriesData_eq_ok_iff, ne_eq, hseries, not_false_eq_true,
      true_and]
    constructor
    · rintro ⟨counts, hcounts, _, ⟨hplaced, rfl⟩, rfl⟩
      refine ⟨hplaced, counts, hcounts, ?_⟩
      cases chart.yBins <;> cases counts <;> rfl
    · rintro ⟨hplaced, counts, hcounts, rfl⟩
      refine ⟨counts, hcounts, _, ⟨hplaced, rfl⟩, ?_⟩
      cases chart.yBins <;> cases counts <;> rfl

theorem get?_series_toJson {chart : Chart} {json : Json} (h : chart.toJson = .ok json) :
    json.get? "series" =
      some (.list (if chart.isHeatMap then [] else chart.series.map chart.seriesRecord)) := by
  obtain ⟨-, -, counts, -, rfl⟩ := toJson_eq_ok_iff.1 h
  cases chart.yBins <;> simp [Json.get?]

theorem get?_counts_toJson {chart : Chart} {json : Json} {counts : List (List Nat)}
    (hcounts : chart.jointCounts = .ok (some counts)) (h : chart.toJson = .ok json) :
    json.get? "counts_2d" = some (.list (counts.map Json.nats)) := by
  obtain ⟨-, -, found, hfound, rfl⟩ := toJson_eq_ok_iff.1 h
  rw [hcounts, Except.ok.injEq] at hfound
  subst hfound
  cases chart.yBins <;> simp [Json.get?]

theorem get?_seriesRecord (chart : Chart) (series : LabeledSeries) :
    (chart.seriesRecord series).get? "samples" = some (.nat series.values.length) ∧
      (chart.seriesRecord series).get? "total" = some (.nat series.values.length) ∧
      (chart.seriesRecord series).get? "counts" =
        some (Json.nats (Histogram.ofSeries chart.xBins series.values).counts) := by
  simp [seriesRecord, Json.get?, Histogram.ofSeries]

/-! ## Counts that add up -/

/-- Each series of a chart is counted on its own, and nothing is lost of the given numbers of
events, neither by the counts nor in the JSON form. -/
structure CountsEach (chart : Chart) (events : List Nat) : Prop where
  counted : chart.countEach = .ok chart.histograms
  sums : chart.histograms.map (·.counts.sum) = events
  totals : chart.histograms.map (·.total) = events
  data : ∃ json items, chart.toJson = .ok json ∧ json.get? "series" = some (.list items) ∧
    items.map (·.get? "samples") = events.map (fun count => some (.nat count)) ∧
    items.map (·.get? "total") = events.map (fun count => some (.nat count)) ∧
    items.map (·.get? "counts") =
      chart.histograms.map (fun histogram => some (Json.nats histogram.counts))

/-- The two series of a chart are counted against each other, and nothing is lost of the given
number of events, neither by the counts nor in the JSON form. -/
structure CountsPairs (chart : Chart) (events : Nat) : Prop where
  counted : ∃ histogram, chart.countPairs = .ok (some histogram) ∧
    histogram.counts.flatten.sum = events ∧ histogram.total = events ∧
    ∃ json, chart.toJson = .ok json ∧
      json.get? "counts_2d" = some (.list (histogram.counts.map Json.nats))

theorem countsEach_of_sound {chart : Chart} (hsound : chart.xBins.Sound)
    (hkind : chart.isHeatMap = false) (haxis : chart.yBins = none) (hseries : chart.series ≠ []) :
    chart.CountsEach (chart.series.map (·.values.length)) := by
  have hplaced := eachPlaced_of_pos hsound.binCount_pos
  obtain ⟨json, hjson⟩ : ∃ json, chart.toJson = .ok json :=
    ⟨_, toJson_eq_ok_iff.2
      ⟨hseries, fun _ => hplaced, none, jointCounts_eq_none haxis hkind, rfl⟩⟩
  have hitems := get?_series_toJson hjson
  rw [hkind, if_neg Bool.false_ne_true] at hitems
  refine ⟨countEach_eq hplaced, ?_, ?_, _, _, hjson, hitems, ?_, ?_, ?_⟩
  · rw [histograms, List.map_map]
    apply List.map_congr_left
    intro series _
    exact Histogram.sum_counts_ofSeries hsound.binCount_pos series.values
  · rw [histograms, List.map_map]
    rfl
  · rw [List.map_map, List.map_map]
    exact List.map_congr_left fun series _ => (get?_seriesRecord chart series).1
  · rw [List.map_map, List.map_map]
    exact List.map_congr_left fun series _ => (get?_seriesRecord chart series).2.1
  · rw [histograms, List.map_map, List.map_map]
    exact List.map_congr_left fun series _ => (get?_seriesRecord chart series).2.2

theorem countsPairs_of_sound {chart : Chart} {yBins : BinSpec} {x y : LabeledSeries}
    (hx : chart.xBins.Sound) (hy : yBins.Sound) (haxis : chart.yBins = some yBins)
    (hseries : chart.series = [x, y]) (hlength : x.values.length = y.values.length) :
    chart.CountsPairs x.values.length := by
  obtain ⟨histogram, hhistogram, hsum, htotal⟩ :=
    JointHistogram.sum_counts_ofSeries hx.binCount_pos hy.binCount_pos hlength
  have hjoint : chart.jointHistogram? = some (.ok histogram) := by
    rw [jointHistogram?_eq haxis hseries, hhistogram]
  have hplaced : chart.PairsPlaced := pairsPlaced_of_pos hx.binCount_pos fun others hothers => by
    rw [haxis, Option.mem_some_iff] at hothers
    exact hothers ▸ hy.binCount_pos
  have hcounts := jointCounts_eq_some hplaced hjoint
  have hjson := toJson_eq_ok_iff.2
    ⟨by simp [hseries], fun _ => eachPlaced_of_pos hx.binCount_pos, _, hcounts, rfl⟩
  exact ⟨histogram, countPairs_eq hplaced hjoint, hsum, htotal, _, hjson,
    get?_counts_toJson hcounts hjson⟩

/-! ## Charts of events -/

theorem countsPairs_latencyVsSize {binning : Binning} {name : String} {cutoffs : Cutoffs}
    {events : List Event} {operation : Operation} {chart : Chart}
    (h : latencyVsSize binning (.ofEvents name cutoffs events) operation = .ok chart) :
    chart.CountsPairs (eventsOf operation events).length := by
  obtain ⟨xBins, yBins, hx, hy, rfl⟩ := latencyVsSize_eq_ok_iff.1 h
  have hlatencies := ClassifiedTrace.length_latencies_ofEvents name cutoffs events operation
  have hsizes := ClassifiedTrace.length_sizes_ofEvents name cutoffs events operation
  rw [← hlatencies, ← length_samplesOf]
  have hlength : (samplesOf ((ClassifiedTrace.ofEvents name cutoffs events).series
      operation).latencies).length =
      ((ClassifiedTrace.ofEvents name cutoffs events).series operation).sizes.length := by
    rw [length_samplesOf, hlatencies, hsizes]
  exact countsPairs_of_sound (x := ⟨_, _⟩) (BinSpec.sound_of_meanScaled hx)
    (BinSpec.sound_of_meanScaled hy) rfl rfl hlength

theorem countsEach_combined {binning : Binning} {name : String} {cutoffs : Cutoffs}
    {events : List Event} {chart : Chart}
    (h : combined binning (.ofEvents name cutoffs events) = .ok chart) :
    chart.CountsEach [(eventsOf .malloc events).length, (eventsOf .free events).length] := by
  obtain ⟨xBins, hx, rfl⟩ := combined_eq_ok_iff.1 h
  rw [← ClassifiedTrace.length_latencies_ofEvents name cutoffs events .malloc,
    ← ClassifiedTrace.length_latencies_ofEvents name cutoffs events .free,
    ← length_samplesOf, ← length_samplesOf]
  exact countsEach_of_sound (BinSpec.sound_of_sharedRange hx) rfl rfl nofun

theorem countsEach_logComparison {scale : LogScale} {binning : Binning} {token : RunToken}
    {traces : List (String × ClassifiedTrace)} {operation : Operation} {chart : Chart}
    (h : logComparison scale binning token traces operation = .ok chart) :
    chart.CountsEach
      (traces.map fun trace => (trace.2.series operation).latencies.length) := by
  obtain ⟨xBins, hx, rfl⟩ := logComparison_eq_ok_iff.1 h
  have htraces : comparedSeries operation traces ≠ [] := by
    intro hnone
    rw [hnone] at hx
    exact BinSpec.logSpan_nil_ne_ok hx
  have hcounts : traces.map (fun trace => (trace.2.series operation).latencies.length) =
      (comparedSeries operation traces).map (·.values.length) := by
    simp [comparedSeries, Function.comp_def]
  rw [hcounts]
  exact countsEach_of_sound (BinSpec.sound_of_logSpan hx) rfl rfl htraces

end HeapLatency.Chart
