import HeapLatency.Bins.Histogram
import HeapLatency.Files.Output

/-!
# Charts

A chart says what is to be drawn: its samples, the bins to count them in, and the texts around
them. How and where it is drawn is left to a renderer.
-/

namespace HeapLatency

inductive ChartKind where
  | latencyVsSize
  /-- Latency densities of both operations of one trace. -/
  | combined
  /-- Latencies of one operation in several traces, over logarithmic bins. -/
  | logComparison
  deriving DecidableEq, Repr

namespace ChartKind

def name : ChartKind → String
  | .latencyVsSize => "latency_vs_size"
  | .combined => "combined"
  | .logComparison => "log_comparison"

def ofName? (name : String) : Option ChartKind :=
  [latencyVsSize, combined, logComparison].find? fun kind => kind.name = name

end ChartKind

structure LabeledSeries where
  label : String
  values : List Binary64
  deriving DecidableEq

structure Chart where
  kind : ChartKind
  /-- Name of its file without an extension. -/
  stem : String
  title : String
  xLabel : String
  yLabel : String
  series : List LabeledSeries
  xBins : BinSpec
  yBins : Option BinSpec
  tickLabels : List String
  /-- Densities are drawn rather than counts. -/
  density : Bool
  deriving DecidableEq

namespace Chart

def isHeatMap (chart : Chart) : Bool := chart.kind = .latencyVsSize

end Chart

inductive RenderError where
  | emptyChart (stem : String)
  | missingAxis (stem : String)
  | bins (cause : BinError)
  | output (cause : OutputError)
  /-- A position past the end of a list. -/
  | outOfRange
  deriving DecidableEq

namespace RenderError

def message : RenderError → String
  | .emptyChart stem => "Chart " ++ stem ++ " has no series to draw"
  | .missingAxis stem => "Chart " ++ stem ++ " is two-dimensional but has no y-axis bins"
  | .bins cause => cause.message
  | .output cause => cause.message
  | .outOfRange => "Index out of bounds"

end RenderError

/-- What was looked up by its position, which has to be there. -/
def inRange {α : Type} : Option α → Except RenderError α
  | some found => .ok found
  | none => .error .outOfRange

namespace Chart

/-- The counts of each series. -/
def countEach (chart : Chart) : Except RenderError (List Histogram) :=
  chart.series.mapM fun series => inRange (Histogram.ofSeries? chart.xBins series.values)

/-- The counts of two series against each other; absent without a second axis or with any other
number of series. -/
def countPairs (chart : Chart) : Except RenderError (Option JointHistogram) :=
  match chart.yBins, chart.series with
  | some yBins, [x, y] => do
    let counted ← inRange (JointHistogram.ofSeries? chart.xBins yBins x.values y.values)
    let histogram ← counted.mapError RenderError.bins
    return some histogram
  | _, _ => return none

end Chart

end HeapLatency
