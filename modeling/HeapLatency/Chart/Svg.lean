import HeapLatency.Chart.Basic
import HeapLatency.Markup

/-!
# Charts as SVG

A chart is drawn on a canvas with a plot area inside fixed margins. Series over one axis are
drawn as bars, beside each other within their bin; a heat map is drawn as cells that are shaded
by their counts. Every bar and every cell has a title with its value. Edges, labels and colours
are looked up by their position, and there is no picture if one of them is not there.
-/

namespace HeapLatency

structure Canvas where
  width : Nat := 1200
  height : Nat := 500
  deriving DecidableEq, Repr

namespace Svg

/-! ## Layout -/

structure Frame where
  left : Binary64
  top : Binary64
  width : Binary64
  height : Binary64

namespace Frame

/-- The canvas inside its margins, at least one unit wide and high. -/
def ofCanvas (canvas : Canvas) : Frame where
  left := 80
  top := 50
  width := (Binary64.ofNat canvas.width - 80 - 30).max 1
  height := (Binary64.ofNat canvas.height - 50 - 70).max 1

def bottom (frame : Frame) : Binary64 := frame.top + frame.height

def right (frame : Frame) : Binary64 := frame.left + frame.width

end Frame

/-- Where a value lies between two ends of an axis, from zero to one. -/
def fraction (scale : LogScale) (logarithmic : Bool) (first last value : Binary64) : Binary64 :=
  let place (x : Binary64) : Binary64 := if logarithmic then scale.log10 x else x
  ((place value - place first) / (place last - place first)).clamp 0 1

/-- The horizontal position of a value between the first and the last edge. -/
def Frame.across (frame : Frame) (scale : LogScale) (bins : BinSpec) (value : Binary64) :
    Except RenderError Binary64 := do
  let first ← inRange bins.edges[0]?
  let last ← inRange bins.edges[bins.binCount]?
  return frame.left + frame.width * fraction scale bins.logarithmic first last value

def maxTicks : Nat := 20

/-- Of how many texts one is shown, so that no more than the greatest number are. -/
def tickStride (labels : Nat) : Nat := Nat.max ((labels + (maxTicks - 1)) / maxTicks) 1

def ticks (labels : List String) : List (String × Nat) :=
  labels.zipIdx.filter fun tick => tick.2 % tickStride labels.length = 0

/-! ## Shapes -/

def places (value : Binary64) : String := value.fixedText 2

def palette : List String := ["#0087ab", "#a7cbeb", "#f28e2b", "#59a14f", "#e15759"]

def colorAt (position : Nat) : Except RenderError String :=
  inRange palette[position % palette.length]?

def heatColor (intensity : Binary64) : String :=
  let depth := intensity.clamp 0 1
  let channel (light dark : Binary64) : String :=
    natText ((light + (dark - light) * depth).nearestNatUpTo 255)
  "rgb(" ++ channel 235 8 ++ ", " ++ channel 245 48 ++ ", " ++ channel 255 107 ++ ")"

def titledRect (x y width height : Binary64) (fill title : String) : Markup :=
  .element "rect"
    [("x", places x), ("y", places y), ("width", places width), ("height", places height),
      ("fill", fill)]
    [.element "title" [] [.text title]]

def line (x1 y1 x2 y2 : Binary64) : Markup :=
  .element "line"
    [("x1", places x1), ("y1", places y1), ("x2", places x2), ("y2", places y2),
      ("stroke", "black")] []

/-! ## Bars -/

/-- How high the bars of each series are. -/
def barHeights (chart : Chart) : Except RenderError (List (List Binary64)) := do
  let histograms ← chart.countEach
  histograms.mapM fun histogram =>
    if chart.density then inRange (histogram.density? chart.xBins)
    else return histogram.counts.map Binary64.ofNat

/-- A bar between two places. Bars of several series share the width between them. -/
def barRect (frame : Frame) (greatest : Binary64) (groups position : Nat) (x0 x1 value : Binary64)
    (color title : String) : Markup :=
  let width := (x1 - x0) / .ofNat groups
  let height := frame.height * value / greatest
  titledRect (x0 + width * .ofNat position) (frame.bottom - height) width height color title

def barTitle (label : String) (lower upper value : Binary64) : String :=
  label ++ " [" ++ edgeText lower ++ ", " ++ edgeText upper ++ "): " ++ value.plainText

/-- The bar of a bin. -/
def drawBar (scale : LogScale) (chart : Chart) (frame : Frame) (greatest : Binary64)
    (color : String) (position bin : Nat) (value : Binary64) : Except RenderError Markup := do
  let lower ← inRange chart.xBins.edges[bin]?
  let x0 ← frame.across scale chart.xBins lower
  let upper ← inRange chart.xBins.edges[bin + 1]?
  let x1 ← frame.across scale chart.xBins upper
  let series ← inRange chart.series[position]?
  return barRect frame greatest chart.series.length position x0 x1 value color
    (barTitle series.label lower upper value)

/-- The bars of one series. -/
def drawGroup (scale : LogScale) (chart : Chart) (frame : Frame) (greatest : Binary64)
    (values : List Binary64) (position : Nat) : Except RenderError (List Markup) := do
  let color ← colorAt position
  (values.zipIdx.filter fun (value, _) => ¬value ≤ 0).mapM fun (value, bin) =>
    drawBar scale chart frame greatest color position bin value

def drawBars (scale : LogScale) (chart : Chart) (frame : Frame) :
    Except RenderError (List Markup) := do
  let heights ← barHeights chart
  let greatest := heights.flatten.foldl Binary64.max 0
  if greatest ≤ 0 then return []
  else
    let groups ← heights.zipIdx.mapM fun (values, position) =>
      drawGroup scale chart frame greatest values position
    return groups.flatten

def legendEntry (frame : Frame) (position : Nat) (color label : String) : List Markup :=
  let y := frame.top + 10 + .ofNat position * 20
  [.element "rect"
      [("x", places (frame.right - 140)), ("y", places (y - 12)), ("width", "15"),
        ("height", "15"), ("fill", color), ("rx", "2")] [],
    .element "text" [("x", places (frame.right - 120)), ("y", places y)] [.text label]]

def drawLegend (chart : Chart) (frame : Frame) : Except RenderError (List Markup) := do
  let entries ← chart.series.zipIdx.mapM fun (series, position) => do
    let color ← colorAt position
    return legendEntry frame position color series.label
  return entries.flatten

/-! ## Cells -/

/-- The cell of a bin on each axis. -/
def cellRect (frame : Frame) (columns rows greatest x y count : Nat) : Markup :=
  let width := frame.width / .ofNat columns
  let height := frame.height / .ofNat rows
  titledRect (frame.left + .ofNat x * width) (frame.bottom - .ofNat (y + 1) * height) width height
    (heatColor (.ofNat count / .ofNat greatest)) (natText count ++ " ops")

/-- The text of a bin along the vertical axis. -/
def rowText (frame : Frame) (rows : Nat) (label : String) (bin : Nat) : Markup :=
  let height := frame.height / .ofNat rows
  .element "text"
    [("x", places (frame.left - 6)), ("y", places (frame.bottom - .ofNat (bin + 1) * height)),
      ("text-anchor", "end"), ("dy", "4")]
    [.text label]

/-- The cells of a heat map, none for bins without samples, and the texts along its vertical
axis. Without any sample there are neither. -/
def drawCells (chart : Chart) (yBins : BinSpec) (histogram : JointHistogram) (frame : Frame) :
    Except RenderError (List Markup) := do
  let columns := chart.xBins.binCount
  let rows := yBins.binCount
  let greatest := histogram.maxCount
  if greatest = 0 then return []
  else
    let rects := histogram.counts.zipIdx.flatMap fun (column, x) =>
      column.zipIdx.filterMap fun (count, y) =>
        if count = 0 then none else some (cellRect frame columns rows greatest x y count)
    let labels ← inRange yBins.labels?
    return rects ++ (ticks labels).map fun (label, bin) => rowText frame rows label bin

/-- A heat map. It needs a second axis, and one series for each axis. -/
def drawHeatMap (chart : Chart) (frame : Frame) : Except RenderError (List Markup) :=
  match chart.yBins with
  | none => throw (.missingAxis chart.stem)
  | some yBins => do
    match ← chart.countPairs with
    | none => throw (.emptyChart chart.stem)
    | some histogram => drawCells chart yBins histogram frame

/-! ## Axes -/

def axisLines (frame : Frame) : List Markup :=
  [line frame.left frame.bottom frame.right frame.bottom,
    line frame.left frame.top frame.left frame.bottom]

def axisNames (chart : Chart) (frame : Frame) : List Markup :=
  let middle := places (frame.top + frame.height / 2)
  [.element "text"
      [("x", places (frame.left + frame.width / 2)), ("y", places (frame.bottom + 45)),
        ("text-anchor", "middle")]
      [.text chart.xLabel],
    .element "text"
      [("x", "20"), ("y", middle), ("text-anchor", "middle"),
        ("transform", "rotate(-90 20 " ++ middle ++ ")")]
      [.text chart.yLabel]]

/-- A text along the horizontal axis. It is drawn as it was given. -/
def columnText (frame : Frame) (x : Binary64) (label : String) : Markup :=
  .element "text"
    [("x", places x), ("y", places (frame.bottom + 18)), ("text-anchor", "middle")]
    [.verbatim label]

/-- The text of a bin along the horizontal axis, at the upper edge of the bin. The bins of a heat
map are equally wide. -/
def drawTick (scale : LogScale) (chart : Chart) (frame : Frame) (label : String) (bin : Nat) :
    Except RenderError Markup := do
  let x ←
    if chart.isHeatMap then
      pure (frame.left + frame.width * .ofNat (bin + 1) / .ofNat chart.xBins.binCount)
    else (inRange chart.xBins.edges[bin + 1]?).bind (frame.across scale chart.xBins)
  return columnText frame x label

/-- Both axes with their names and the texts along the horizontal one. Texts past the last bin
have no place. -/
def drawAxes (scale : LogScale) (chart : Chart) (frame : Frame) :
    Except RenderError (List Markup) := do
  let placed := Nat.min chart.tickLabels.length chart.xBins.binCount
  let labels ← inRange (slice? chart.tickLabels 0 placed)
  let texts ← (ticks labels).mapM fun (label, bin) => drawTick scale chart frame label bin
  return axisLines frame ++ texts ++ axisNames chart frame

def style : String :=
  "text \x7b font: 12px sans-serif; \x7d .title \x7b font-size: 16px; font-weight: bold; \x7d"

end Svg

namespace Chart

def toMarkup (scale : LogScale) (canvas : Canvas) (chart : Chart) :
    Except RenderError Markup := do
  if chart.series.isEmpty then
    throw (.emptyChart chart.stem)
  let frame := Svg.Frame.ofCanvas canvas
  let width := natText canvas.width
  let height := natText canvas.height
  let plot ←
    if chart.isHeatMap then Svg.drawHeatMap chart frame
    else do
      let bars ← Svg.drawBars scale chart frame
      let legend ← Svg.drawLegend chart frame
      pure (bars ++ legend)
  let axes ← Svg.drawAxes scale chart frame
  return .element "svg"
    [("xmlns", "http://www.w3.org/2000/svg"), ("width", width), ("height", height),
      ("viewBox", "0 0 " ++ width ++ " " ++ height)]
    ([.element "style" [] [.verbatim Svg.style],
      .element "rect"
        [("x", "0"), ("y", "0"), ("width", width), ("height", height), ("fill", "white")] [],
      .element "text"
        [("x", natText (canvas.width / 2)), ("y", "25"), ("text-anchor", "middle"),
          ("class", "title")]
        [.text chart.title]] ++
      plot ++ axes)

def toSvg (scale : LogScale) (canvas : Canvas) (chart : Chart) : Except RenderError String :=
  (chart.toMarkup scale canvas).map Markup.render

end Chart

end HeapLatency
