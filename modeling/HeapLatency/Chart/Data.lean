import HeapLatency.Chart.Basic
import HeapLatency.Json.Value

/-!
# Chart data

A chart as data for other programs: its texts, its bins and its counts, without the samples.
A heat map has its counts by both axes in place of the series.
-/

namespace HeapLatency

namespace BinSpec

def toJson (spec : BinSpec) : Json :=
  .record [
    ("edges", Json.reals spec.edges),
    ("step", .real spec.step),
    ("is_log", .bool spec.logarithmic)]

end BinSpec

namespace Chart

def seriesJson (chart : Chart) (series : LabeledSeries) : Except RenderError Json := do
  let histogram ← inRange (Histogram.ofSeries? chart.xBins series.values)
  let densities ←
    if chart.density then
      (inRange (histogram.density? chart.xBins)).map fun densities =>
        [("density", Json.reals densities)]
    else pure []
  return .record ([
    ("label", .text series.label),
    ("samples", .nat series.values.length),
    ("counts", Json.nats histogram.counts),
    ("total", .nat histogram.total)] ++ densities)

/-- The series with their counts. A heat map has none. -/
def seriesData (chart : Chart) : Except RenderError (List Json) :=
  if chart.isHeatMap then return [] else chart.series.mapM chart.seriesJson

/-- The counts by both axes, where there are any. A heat map has to have them. -/
def jointCounts (chart : Chart) : Except RenderError (Option (List (List Nat))) := do
  match ← chart.countPairs with
  | some histogram => return some histogram.counts
  | none => if chart.isHeatMap then throw (.missingAxis chart.stem) else return none

def toJson (chart : Chart) : Except RenderError Json := do
  if chart.series.isEmpty then
    throw (.emptyChart chart.stem)
  let counts ← chart.jointCounts
  let series ← chart.seriesData
  return .record ([
    ("kind", .text chart.kind.name),
    ("title", .text chart.title),
    ("x_label", .text chart.xLabel),
    ("y_label", .text chart.yLabel),
    ("x_bins", chart.xBins.toJson),
    ("x_tick_labels", Json.texts chart.tickLabels)] ++
    (match chart.yBins with
    | some yBins => [("y_bins", yBins.toJson)]
    | none => []) ++
    [("series", .list series)] ++
    (match counts with
    | some counts => [("counts_2d", .list (counts.map Json.nats))]
    | none => []))

end Chart

end HeapLatency
