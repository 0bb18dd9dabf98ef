import HeapLatency.Command.Run
import Mathlib.Data.List.Forall2

/-!
# Steps of a command

A step that may fail is drawing a chart, leaving out a trace, or leaving out the comparison. It
gives the path of a chart or a failure, never both and never neither. What a command records is
what its steps give, in their order.
-/

namespace HeapLatency

inductive Step where
  /-- Draw a chart, if it could be built. -/
  | draw (stage : String) (chart : Except BinError Chart)
  | leaveOut (trace : LabeledPath) (cause : TraceError)
  | skipComparison (parsed : Nat)

variable {μ : Type}

namespace Step

def chart? : Step → Option (Except BinError Chart)
  | .draw _ chart => some chart
  | _ => none

/-- What a step may give: the path of its chart, or a failure under its own name. -/
inductive Gives : Step → Except Failure Path → Prop where
  | drawn (stage : String) (chart : Chart) (path : Path) :
    Gives (.draw stage (.ok chart)) (.ok path)
  | notBuilt (stage : String) (cause : BinError) :
    Gives (.draw stage (.error cause)) (.error ⟨stage, .render (.bins cause)⟩)
  | notRendered (stage : String) (chart : Chart) (cause : RenderError) :
    Gives (.draw stage (.ok chart)) (.error ⟨stage, .render cause⟩)
  | leftOut (trace : LabeledPath) (cause : TraceError) :
    Gives (.leaveOut trace cause) (.error ⟨trace.label, .trace trace.path cause⟩)
  | skipped (parsed : Nat) :
    Gives (.skipComparison parsed) (.error ⟨"comparison", .tooFewTraces parsed⟩)

/-- Does a step. Only a chart that could be built gets to the renderer. -/
def perform (renderer : Renderer μ) : Step → FileTree × μ → Except Failure Path × FileTree × μ
  | .draw stage (.error cause), state => (.error ⟨stage, .render (.bins cause)⟩, state)
  | .draw stage (.ok chart), state =>
    ((renderer chart state).1.mapError fun cause => ⟨stage, .render cause⟩,
      (renderer chart state).2)
  | .leaveOut trace cause, state => (.error ⟨trace.label, .trace trace.path cause⟩, state)
  | .skipComparison parsed, state => (.error ⟨"comparison", .tooFewTraces parsed⟩, state)

/-- Does steps one after the other, and gives one result for each. -/
def performAll (renderer : Renderer μ) :
    List Step → FileTree × μ → List (Except Failure Path) × FileTree × μ
  | [], state => ([], state)
  | step :: steps, state =>
    let first := step.perform renderer state
    let others := performAll renderer steps first.2
    (first.1 :: others.1, others.2)

variable {renderer : Renderer μ}

theorem performAll_append (first second : List Step) (state : FileTree × μ) :
    performAll renderer (first ++ second) state =
      ((performAll renderer first state).1 ++
          (performAll renderer second (performAll renderer first state).2).1,
        (performAll renderer second (performAll renderer first state).2).2) := by
  induction first generalizing state with
  | nil => rfl
  | cons step first ih =>
    have hrest := ih (step.perform renderer state).2
    simp only [List.cons_append, performAll, hrest]

theorem gives_perform (step : Step) (state : FileTree × μ) :
    step.Gives (step.perform renderer state).1 := by
  cases step with
  | draw stage chart =>
    cases chart with
    | error cause => exact .notBuilt stage cause
    | ok chart =>
      rw [perform]
      cases (renderer chart state).1 with
      | error cause => exact .notRendered stage chart cause
      | ok path => exact .drawn stage chart path
  | leaveOut trace cause => exact .leftOut trace cause
  | skipComparison parsed => exact .skipped parsed

theorem gives_performAll (steps : List Step) (state : FileTree × μ) :
    List.Forall₂ Gives steps (performAll renderer steps state).1 := by
  induction steps generalizing state with
  | nil => exact .nil
  | cons step steps ih => exact .cons (gives_perform step state) (ih _)

def paths (results : List (Except Failure Path)) : List Path := results.filterMap Except.toOption

def failure? : Except Failure Path → Option Failure
  | .error failure => some failure
  | .ok _ => none

def failures (results : List (Except Failure Path)) : List Failure := results.filterMap failure?

/-- No result is both a path and a failure, and none is neither. -/
theorem length_paths_add_failures (results : List (Except Failure Path)) :
    (paths results).length + (failures results).length = results.length := by
  induction results with
  | nil => rfl
  | cons result results ih =>
    cases result with
    | error failure =>
      have hpaths : paths (.error failure :: results) = paths results := rfl
      have hfailures : failures (.error failure :: results) = failure :: failures results := rfl
      rw [hpaths, hfailures, List.length_cons, List.length_cons]
      omega
    | ok path =>
      have hpaths : paths (.ok path :: results) = path :: paths results := rfl
      have hfailures : failures (.ok path :: results) = failures results := rfl
      rw [hpaths, hfailures, List.length_cons, List.length_cons]
      omega

theorem paths_append (first second : List (Except Failure Path)) :
    paths (first ++ second) = paths first ++ paths second :=
  List.filterMap_append

theorem failures_append (first second : List (Except Failure Path)) :
    failures (first ++ second) = failures first ++ failures second :=
  List.filterMap_append

end Step

namespace Progress

def state (progress : Progress μ) : FileTree × μ := (progress.tree, progress.memory)

/-- From `before` to `after` a command did the steps, recorded what they gave, and added the
reports. -/
structure Advance (renderer : Renderer μ) (steps : List Step) (reports : List Report)
    (before after : Progress μ) : Prop where
  state : after.state = (Step.performAll renderer steps before.state).2
  charts : after.summary.charts = before.summary.charts ++
    Step.paths (Step.performAll renderer steps before.state).1
  failures : after.summary.failures = before.summary.failures ++
    Step.failures (Step.performAll renderer steps before.state).1
  reports : after.summary.reports = before.summary.reports ++ reports

namespace Advance

variable {renderer : Renderer μ} {before mid after : Progress μ}

theorem refl : Advance renderer [] [] before before :=
  ⟨rfl, (List.append_nil _).symm, (List.append_nil _).symm, (List.append_nil _).symm⟩

theorem trans {first second : List Step} {reports others : List Report}
    (hfirst : Advance renderer first reports before mid)
    (hsecond : Advance renderer second others mid after) :
    Advance renderer (first ++ second) (reports ++ others) before after := by
  refine ⟨?_, ?_, ?_, ?_⟩
  · rw [hsecond.state, hfirst.state, Step.performAll_append]
  · rw [hsecond.charts, hfirst.charts, hfirst.state, Step.performAll_append, Step.paths_append,
      List.append_assoc]
  · rw [hsecond.failures, hfirst.failures, hfirst.state, Step.performAll_append,
      Step.failures_append, List.append_assoc]
  · rw [hsecond.reports, hfirst.reports, List.append_assoc]

theorem single {step : Step} (result : Except Failure Path)
    (hperform : step.perform renderer before.state = (result, after.state))
    (hcharts : after.summary.charts = before.summary.charts ++ Step.paths [result])
    (hfailures : after.summary.failures = before.summary.failures ++ Step.failures [result])
    (hreports : after.summary.reports = before.summary.reports) :
    Advance renderer [step] [] before after := by
  have hall : Step.performAll renderer [step] before.state = ([result], after.state) := by
    simp only [Step.performAll, hperform]
  refine ⟨?_, ?_, ?_, ?_⟩
  · rw [hall]
  · rw [hall, hcharts]
  · rw [hall, hfailures]
  · rw [hreports, List.append_nil]

theorem of_fail {step : Step} {failure : Failure} (hstate : after.state = before.state)
    (hperform : step.perform renderer before.state = (.error failure, before.state))
    (hsummary : after.summary =
      { before.summary with failures := before.summary.failures ++ [failure] }) :
    Advance renderer [step] [] before after := by
  apply single (.error failure)
  · rw [hperform, hstate]
  · rw [hsummary]
    exact (List.append_nil _).symm
  · rw [hsummary]
    rfl
  · rw [hsummary]

end Advance

/-! ## Single steps -/

variable {tools : Tools μ}

theorem advance_drawChart (stage : String) (chart : Except BinError Chart)
    (progress : Progress μ) :
    Advance tools.renderer [.draw stage chart] [] progress
      (progress.drawChart tools stage chart) := by
  cases chart with
  | error cause => exact Advance.of_fail rfl rfl rfl
  | ok chart =>
    obtain ⟨result, tree, memory, hrender⟩ : ∃ result tree memory,
        tools.renderer chart progress.state = (result, tree, memory) := ⟨_, _, _, rfl⟩
    have hdrawn : progress.drawChart tools stage (.ok chart) =
        match result with
        | .ok path => { progress with tree, memory }.addChart path
        | .error cause => { progress with tree, memory }.skipChart stage cause := by
      rw [state] at hrender
      rw [drawChart, hrender]
      cases result <;> rfl
    have hperform : (Step.draw stage (.ok chart)).perform tools.renderer progress.state =
        (result.mapError fun cause => ⟨stage, .render cause⟩, tree, memory) := by
      rw [Step.perform, hrender]
    rw [hdrawn]
    cases result with
    | error cause => exact Advance.single _ hperform (List.append_nil _).symm rfl rfl
    | ok path => exact Advance.single _ hperform rfl (List.append_nil _).symm rfl

theorem advance_skipTrace (trace : LabeledPath) (cause : TraceError) (progress : Progress μ) :
    Advance tools.renderer [.leaveOut trace cause] [] progress (progress.skipTrace trace cause) :=
  Advance.of_fail rfl rfl rfl

theorem advance_addReport (report : Report) (progress : Progress μ) :
    Advance tools.renderer [] [report] progress (progress.addReport report) :=
  ⟨rfl, (List.append_nil _).symm, (List.append_nil _).symm, rfl⟩

end Progress

/-! ## Runs of steps -/

namespace Step

def drawAll (charts : List (String × Except BinError Chart)) : List Step :=
  charts.map fun chart => .draw chart.1 chart.2

@[simp] theorem length_drawAll (charts : List (String × Except BinError Chart)) :
    (drawAll charts).length = charts.length := by
  rw [drawAll, List.length_map]

@[simp] theorem filterMap_chart?_drawAll (charts : List (String × Except BinError Chart)) :
    (drawAll charts).filterMap chart? = charts.map (·.2) := by
  rw [drawAll, List.filterMap_map, ← List.filterMap_eq_map]
  rfl

end Step

namespace FileTree

/-- The trace in a file with its events sorted. -/
def classifyTrace (tree : FileTree) (config : Config) (path : Path) :
    Except TraceError ClassifiedTrace :=
  (tree.readTrace path).map fun read =>
    .ofEvents path.displayName config.cutoffs read.events

/-- The traces that can be read, under their labels. -/
def parsedTraces (tree : FileTree) (config : Config) (traces : List LabeledPath) :
    List (String × ClassifiedTrace) :=
  traces.filterMap fun trace =>
    (tree.classifyTrace config trace.path).toOption.map fun parsed => (trace.label, parsed)

/-- The steps of working through a trace. -/
def traceSteps (tree : FileTree) (config : Config) (trace : LabeledPath) : List Step :=
  match tree.classifyTrace config trace.path with
  | .error cause => [.leaveOut trace cause]
  | .ok parsed => Step.drawAll (Progress.traceCharts config.binning parsed)

variable {tree : FileTree} {config : Config} {trace : LabeledPath}

theorem parsedTraces_cons (traces : List LabeledPath) :
    tree.parsedTraces config (trace :: traces) =
      tree.parsedTraces config [trace] ++ tree.parsedTraces config traces := by
  rw [← List.singleton_append, parsedTraces, List.filterMap_append]
  rfl

theorem parsedTraces_of_error {cause : TraceError}
    (h : tree.classifyTrace config trace.path = .error cause) :
    tree.parsedTraces config [trace] = [] := by
  rw [parsedTraces, List.filterMap_cons_none, List.filterMap_nil]
  rw [h]
  rfl

theorem parsedTraces_of_ok {parsed : ClassifiedTrace}
    (h : tree.classifyTrace config trace.path = .ok parsed) :
    tree.parsedTraces config [trace] = [(trace.label, parsed)] := by
  rw [parsedTraces, List.filterMap_cons_some, List.filterMap_nil]
  rw [h]
  rfl

theorem traceSteps_of_error {cause : TraceError}
    (h : tree.classifyTrace config trace.path = .error cause) :
    tree.traceSteps config trace = [.leaveOut trace cause] := by
  rw [traceSteps, h]

theorem traceSteps_of_ok {parsed : ClassifiedTrace}
    (h : tree.classifyTrace config trace.path = .ok parsed) :
    tree.traceSteps config trace =
      Step.drawAll (Progress.traceCharts config.binning parsed) := by
  rw [traceSteps, h]

end FileTree

/-- The steps of drawing traces over each other. -/
def comparisonSteps (scale : LogScale) (binning : Binning) (token : RunToken)
    (traces : List (String × ClassifiedTrace)) : List Step :=
  if traces.length < 2 then [.skipComparison traces.length]
  else Step.drawAll (Progress.comparisonCharts scale binning token traces)

namespace Progress

variable {tools : Tools μ}

theorem advance_drawCharts (charts : List (String × Except BinError Chart))
    (progress : Progress μ) :
    Advance tools.renderer (Step.drawAll charts) [] progress
      (progress.drawCharts tools charts) := by
  induction charts generalizing progress with
  | nil => exact Advance.refl
  | cons chart charts ih =>
    exact (advance_drawChart chart.1 chart.2 progress).trans (ih _)

theorem processTrace_eq (config : Config) (path : Path) (progress : Progress μ) :
    progress.processTrace tools config path =
      match progress.tree.classifyTrace config path with
      | .error cause => (.error cause, progress)
      | .ok parsed =>
        (.ok parsed, (progress.drawCharts tools (traceCharts config.binning parsed)).addReport
          (.ofTrace config.cutoffs parsed)) := by
  rw [processTrace, FileTree.classifyTrace]
  cases progress.tree.readTrace path <;> rfl

theorem processTraces_cons (config : Config) (trace : LabeledPath) (traces : List LabeledPath)
    (progress : Progress μ) :
    progress.processTraces tools config (trace :: traces) =
      ((progress.processTraces tools config [trace]).1 ++
          ((progress.processTraces tools config [trace]).2.processTraces tools config traces).1,
        ((progress.processTraces tools config [trace]).2.processTraces tools config traces).2) := by
  rw [processTraces, processTraces]
  obtain ⟨outcome, next, hnext⟩ : ∃ outcome next,
      progress.processTrace tools config trace.path = (outcome, next) := ⟨_, _, rfl⟩
  rw [hnext]
  cases outcome <;> rfl

theorem advance_processTraces_singleton {tree : FileTree} {config : Config} {trace : LabeledPath}
    {progress : Progress μ}
    (h : progress.tree.readTrace trace.path = tree.readTrace trace.path) :
    (progress.processTraces tools config [trace]).1 = tree.parsedTraces config [trace] ∧
      Advance tools.renderer (tree.traceSteps config trace)
        ((tree.parsedTraces config [trace]).map fun parsed => .ofTrace config.cutoffs parsed.2)
        progress (progress.processTraces tools config [trace]).2 := by
  have hread : progress.tree.classifyTrace config trace.path =
      tree.classifyTrace config trace.path := by
    rw [FileTree.classifyTrace, h, FileTree.classifyTrace]
  cases hclassify : tree.classifyTrace config trace.path with
  | error cause =>
    rw [FileTree.parsedTraces_of_error hclassify, FileTree.traceSteps_of_error hclassify,
      processTraces, processTrace_eq, hread, hclassify]
    exact ⟨rfl, advance_skipTrace trace cause progress⟩
  | ok parsed =>
    rw [FileTree.parsedTraces_of_ok hclassify, FileTree.traceSteps_of_ok hclassify,
      processTraces, processTrace_eq, hread, hclassify, ← List.append_nil (Step.drawAll _)]
    exact ⟨rfl, (advance_drawCharts (traceCharts config.binning parsed) progress).trans
      (advance_addReport (.ofTrace config.cutoffs parsed) _)⟩

end Progress

end HeapLatency
