import HeapLatency.Chart.Data
import HeapLatency.Chart.Svg
import HeapLatency.Json.Print

/-!
# Renderers

A renderer makes something of a chart and says where it went. The two renderers for files write
one file for each chart into a directory, replacing a file of the same name.
-/

namespace HeapLatency

/-- Renders a chart. It may change files, and keeps a memory of its own from chart to chart. -/
def Renderer (μ : Type) : Type :=
  Chart → FileTree × μ → Except RenderError Path × FileTree × μ

inductive ChartFormat where
  | svg
  | json
  deriving DecidableEq, Repr

namespace ChartFormat

def name : ChartFormat → String
  | .svg => "svg"
  | .json => "json"

def ofName? (name : String) : Option ChartFormat :=
  [svg, json].find? fun format => format.name = name

/-- What the file of a chart holds. -/
def content (format : ChartFormat) (scale : LogScale) (canvas : Canvas) (chart : Chart) :
    Except RenderError String :=
  match format with
  | .svg => chart.toSvg scale canvas
  | .json => chart.toJson.map Json.pretty

end ChartFormat

namespace Chart

def path (directory : Path) (format : ChartFormat) (chart : Chart) : Path :=
  directory.join (.ofText (chart.stem ++ "." ++ format.name))

end Chart

namespace Renderer

def toFiles {μ : Type} (scale : LogScale) (canvas : Canvas) (format : ChartFormat)
    (directory : Path) : Renderer μ :=
  fun chart (tree, memory) =>
    match format.content scale canvas chart with
    | .error cause => (.error cause, tree, memory)
    | .ok text =>
      let path := chart.path directory format
      match tree.writeOutput path (bytesOf text) with
      | (.error cause, left) => (.error (.output cause), left, memory)
      | (.ok (), written) => (.ok path, written, memory)

end Renderer

end HeapLatency
