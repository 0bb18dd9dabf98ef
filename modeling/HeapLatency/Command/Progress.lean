import HeapLatency.Chart.Build
import HeapLatency.Command.Summary
import HeapLatency.Report.Document
import HeapLatency.Trace.Parse

/-!
# Progress of a command

The steps that commands share: drawing a chart, working through one trace, and writing the
statistics. A chart that cannot be built or rendered is left out and recorded; the command goes
on.
-/

namespace HeapLatency

structure Tools (μ : Type) where
  scale : LogScale
  renderer : Renderer μ
  time : String

structure Progress (μ : Type) where
  tree : FileTree
  /-- What the renderer keeps from chart to chart. -/
  memory : μ
  /-- Text for the terminal, one entry for each line or block of lines. -/
  printed : List String := []
  warnings : List Notice := []
  summary : Summary := {}

namespace Progress

variable {μ : Type}

def warn (text : String) (progress : Progress μ) : Progress μ :=
  { progress with warnings := progress.warnings ++ [⟨.warn, text⟩] }

def fail (failure : Failure) (progress : Progress μ) : Progress μ :=
  { progress with summary.failures := progress.summary.failures ++ [failure] }

def addChart (path : Path) (progress : Progress μ) : Progress μ :=
  { progress with summary.charts := progress.summary.charts ++ [path] }

def skipChart (stage : String) (cause : RenderError) (progress : Progress μ) : Progress μ :=
  (progress.warn ("Skipping chart (" ++ stage ++ "): " ++ cause.message)).fail
    ⟨stage, .render cause⟩

def drawChart (tools : Tools μ) (stage : String) (chart : Except BinError Chart)
    (progress : Progress μ) : Progress μ :=
  match chart with
  | .error cause => progress.skipChart stage (.bins cause)
  | .ok chart =>
    match tools.renderer chart (progress.tree, progress.memory) with
    | (.ok path, tree, memory) => { progress with tree, memory }.addChart path
    | (.error cause, tree, memory) => { progress with tree, memory }.skipChart stage cause

def traceCharts (binning : Binning) (trace : ClassifiedTrace) :
    List (String × Except BinError Chart) :=
  Operation.all.map (fun operation =>
    (trace.name ++ " " ++ operation.name ++ " latency vs size",
      Chart.latencyVsSize binning trace operation)) ++
  [(trace.name ++ " combined latency", Chart.combined binning trace)]

def drawCharts (tools : Tools μ) (charts : List (String × Except BinError Chart))
    (progress : Progress μ) : Progress μ :=
  charts.foldl (fun progress (stage, chart) => progress.drawChart tools stage chart) progress

def addReport (report : Report) (progress : Progress μ) : Progress μ :=
  { progress with
    warnings := progress.warnings ++ report.warnings
    printed := progress.printed ++ [report.summary]
    summary.reports := progress.summary.reports ++ [report] }

/-- Reads and classifies a trace, draws its charts and reports on it. When the trace cannot be
read nothing else is done. -/
def processTrace (tools : Tools μ) (config : Config) (path : Path) (progress : Progress μ) :
    Except TraceError ClassifiedTrace × Progress μ :=
  match progress.tree.readTrace path with
  | .error cause => (.error cause, progress)
  | .ok read =>
    let trace := ClassifiedTrace.ofEvents path.displayName config.cutoffs read.events
    (.ok trace,
      (progress.drawCharts tools (traceCharts config.binning trace)).addReport
        (.ofTrace config.cutoffs trace))

def writeReports (tools : Tools μ) (report : Option Path) (progress : Progress μ) :
    Except Fatal Unit × Progress μ :=
  match report with
  | none => (.ok (), progress)
  | some path =>
    match progress.tree.writeStats tools.time path progress.summary.reports with
    | (.ok (), tree) => (.ok (), { progress with tree })
    | (.error cause, tree) => (.error (.stats cause), { progress with tree })

def finish (tools : Tools μ) (report : Option Path) (progress : Progress μ) :
    Except Fatal Summary × Progress μ :=
  match progress.writeReports tools report with
  | (.ok (), progress) => (.ok progress.summary, progress)
  | (.error cause, progress) => (.error cause, progress)

end Progress

end HeapLatency
