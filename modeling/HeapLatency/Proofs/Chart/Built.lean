import HeapLatency.Chart.Build
import HeapLatency.Proofs.Bins.Counting
import HeapLatency.Proofs.Bins.Sound

/-!
# Charts that are built

What is known of a chart once it is built: where its bins came from, and everything it shows.
The bins are sound, so the counts of a chart add up to the numbers of its samples.
-/

namespace HeapLatency

@[simp] theorem length_samplesOf (latencies : List UInt64) :
    (samplesOf latencies).length = latencies.length := by
  simp [samplesOf]

namespace Chart

theorem latencyVsSize_eq_ok_iff {binning : Binning} {trace : ClassifiedTrace}
    {operation : Operation} {chart : Chart} :
    latencyVsSize binning trace operation = .ok chart ↔
      ∃ xBins yBins,
        BinSpec.meanScaled (samplesOf (trace.series operation).latencies) binning.heatMapBins =
          .ok xBins ∧
        BinSpec.meanScaled (trace.series operation).sizes binning.heatMapBins = .ok yBins ∧
        chart =
          { kind := .latencyVsSize
            stem := trace.name ++ "_" ++ operation.name ++ "_chunk_vs_cycles"
            title := natText (trace.series operation).sizes.length ++ " " ++ operation.name ++
              " ops"
            xLabel := "Cycles spent"
            yLabel := "Block size (MB)"
            series := [⟨"cycles", samplesOf (trace.series operation).latencies⟩,
              ⟨"size_mib", (trace.series operation).sizes⟩]
            xBins
            yBins := some yBins
            tickLabels := xBins.labels
            density := false } := by
  simp only [latencyVsSize, bind_eq_ok, pure_eq_ok, exists_and_left]

theorem combined_eq_ok_iff {binning : Binning} {trace : ClassifiedTrace} {chart : Chart} :
    combined binning trace = .ok chart ↔
      ∃ xBins,
        BinSpec.sharedRange [samplesOf trace.malloc.latencies, samplesOf trace.free.latencies]
          binning.combinedBins binning.roundingBase = .ok xBins ∧
        chart =
          { kind := .combined
            stem := trace.name
            title := "cpu cycles for total ops: " ++ natText trace.totalOps
            xLabel := "cycles spent"
            yLabel := "density"
            series := [⟨Operation.malloc.name, samplesOf trace.malloc.latencies⟩,
              ⟨Operation.free.name, samplesOf trace.free.latencies⟩]
            xBins
            yBins := none
            tickLabels := xBins.labels
            density := true } := by
  simp only [combined, bind_eq_ok, pure_eq_ok]

/-- The series of a comparison: the latencies of one operation under the label of each trace. -/
def comparedSeries (operation : Operation) (traces : List (String × ClassifiedTrace)) :
    List LabeledSeries :=
  traces.map fun trace => ⟨trace.1, samplesOf (trace.2.series operation).latencies⟩

theorem logComparison_eq_ok_iff {scale : LogScale} {binning : Binning} {token : RunToken}
    {traces : List (String × ClassifiedTrace)} {operation : Operation} {chart : Chart} :
    logComparison scale binning token traces operation = .ok chart ↔
      ∃ xBins,
        BinSpec.logSpan scale ((comparedSeries operation traces).map (·.values))
          binning.logBins = .ok xBins ∧
        chart =
          { kind := .logComparison
            stem := token.text ++ "_" ++ "_vs_".intercalate (traces.map (·.1)) ++ "_" ++
              operation.name ++ "_op_hist_plot"
            title := natText ((comparedSeries operation traces).head?.elim 0 (·.values.length)) ++
              " " ++ operation.name ++ " ops latency in cycles [log scale]"
            xLabel := "cycles spent (log scale)"
            yLabel := "op count"
            series := comparedSeries operation traces
            xBins
            yBins := none
            tickLabels := xBins.labels
            density := false } := by
  simp only [logComparison, bind_eq_ok, pure_eq_ok]
  cases traces <;> rfl

end Chart

end HeapLatency
