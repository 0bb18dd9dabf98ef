import HeapLatency.Bins.Policy
import HeapLatency.Chart.Basic
import HeapLatency.RunToken
import HeapLatency.Trace.Series

/-!
# Charts of traces

The charts that are drawn of classified traces: latencies against sizes for each operation, both
operations of one trace against each other, and one operation across traces.
-/

namespace HeapLatency

def samplesOf (latencies : List UInt64) : List Binary64 :=
  latencies.map fun cycles => .ofNat cycles.toNat

namespace Chart

/-- Latencies against chunk sizes of one operation. Each axis has bins by its own mean. -/
def latencyVsSize (binning : Binning) (trace : ClassifiedTrace) (operation : Operation) :
    Except BinError Chart := do
  let series := trace.series operation
  let latencies := samplesOf series.latencies
  let xBins ← BinSpec.meanScaled latencies binning.heatMapBins
  let yBins ← BinSpec.meanScaled series.sizes binning.heatMapBins
  return {
    kind := .latencyVsSize
    stem := trace.name ++ "_" ++ operation.name ++ "_chunk_vs_cycles"
    title := natText series.sizes.length ++ " " ++ operation.name ++ " ops"
    xLabel := "Cycles spent"
    yLabel := "Block size (MB)"
    series := [⟨"cycles", latencies⟩, ⟨"size_mib", series.sizes⟩]
    xBins
    yBins := some yBins
    tickLabels := xBins.labels
    density := false }

/-- Latency densities of both operations over the same bins. -/
def combined (binning : Binning) (trace : ClassifiedTrace) : Except BinError Chart := do
  let malloc := samplesOf trace.malloc.latencies
  let free := samplesOf trace.free.latencies
  let xBins ← BinSpec.sharedRange [malloc, free] binning.combinedBins binning.roundingBase
  return {
    kind := .combined
    stem := trace.name
    title := "cpu cycles for total ops: " ++ natText trace.totalOps
    xLabel := "cycles spent"
    yLabel := "density"
    series := [⟨Operation.malloc.name, malloc⟩, ⟨Operation.free.name, free⟩]
    xBins
    yBins := none
    tickLabels := xBins.labels
    density := true }

/-- Latencies of one operation in labelled traces of a run, over bins that span all of them. -/
def logComparison (scale : LogScale) (binning : Binning) (token : RunToken)
    (traces : List (String × ClassifiedTrace)) (operation : Operation) :
    Except BinError Chart := do
  let series : List LabeledSeries := traces.map fun (label, trace) =>
    ⟨label, samplesOf (trace.series operation).latencies⟩
  let xBins ← BinSpec.logSpan scale (series.map (·.values)) binning.logBins
  let leadCount := match series with
    | first :: _ => first.values.length
    | [] => 0
  return {
    kind := .logComparison
    stem := token.text ++ "_" ++ "_vs_".intercalate (traces.map (·.1)) ++ "_" ++
      operation.name ++ "_op_hist_plot"
    title := natText leadCount ++ " " ++ operation.name ++ " ops latency in cycles [log scale]"
    xLabel := "cycles spent (log scale)"
    yLabel := "op count"
    series
    xBins
    yBins := none
    tickLabels := xBins.labels
    density := false }

end Chart

end HeapLatency
