import HeapLatency.Proofs.Command.Fatal
import HeapLatency.Proofs.Command.Steps
import HeapLatency.Proofs.Results

/-!
# Accounting of a comparison

The summary of a comparison is worked out from the files at its start: which steps there are does
not depend on how they go, and each of them is in the summary once.
-/

namespace HeapLatency

variable {μ : Type} {tools : Tools μ}

/-! ## Runs over traces -/

namespace Progress

/-- Each trace, when its turn comes, reads as it does in `tree`. -/
def Spares (tools : Tools μ) (config : Config) (traces : List LabeledPath) (tree : FileTree)
    (progress : Progress μ) : Prop :=
  ∀ before trace after, traces = before ++ trace :: after →
    (progress.processTraces tools config before).2.tree.readTrace trace.path =
      tree.readTrace trace.path

theorem Spares.head {config : Config} {trace : LabeledPath} {traces : List LabeledPath}
    {tree : FileTree} {progress : Progress μ}
    (h : progress.Spares tools config (trace :: traces) tree) :
    progress.tree.readTrace trace.path = tree.readTrace trace.path :=
  h [] trace traces rfl

theorem Spares.tail {config : Config} {trace : LabeledPath} {traces : List LabeledPath}
    {tree : FileTree} {progress : Progress μ}
    (h : progress.Spares tools config (trace :: traces) tree) :
    (progress.processTraces tools config [trace]).2.Spares tools config traces tree := by
  intro before next after htraces
  have hnext := h (trace :: before) next after (by rw [htraces, List.cons_append])
  rwa [processTraces_cons] at hnext

theorem advance_processTraces {tree : FileTree} {config : Config} {traces : List LabeledPath}
    {progress : Progress μ} (h : progress.Spares tools config traces tree) :
    (progress.processTraces tools config traces).1 = tree.parsedTraces config traces ∧
      Advance tools.renderer (traces.flatMap (tree.traceSteps config))
        ((tree.parsedTraces config traces).map fun parsed => .ofTrace config.cutoffs parsed.2)
        progress (progress.processTraces tools config traces).2 := by
  -- what has been drawn so far still spares the traces that are left
  induction traces generalizing progress with
  | nil => exact ⟨rfl, Advance.refl⟩
  | cons trace traces ih =>
    obtain ⟨hfirst, hfirstAdvance⟩ := advance_processTraces_singleton h.head
    obtain ⟨hrest, hrestAdvance⟩ := ih h.tail
    rw [processTraces_cons, FileTree.parsedTraces_cons, List.map_append, List.flatMap_cons]
    exact ⟨by rw [hfirst, hrest], hfirstAdvance.trans hrestAdvance⟩

theorem advance_drawComparison (binning : Binning) (token : RunToken) (given : Nat)
    (traces : List (String × ClassifiedTrace)) (progress : Progress μ) :
    Advance tools.renderer (comparisonSteps tools.scale binning token traces) [] progress
      (progress.drawComparison tools binning token given traces) := by
  unfold drawComparison comparisonSteps
  split
  · exact Advance.of_fail rfl rfl rfl
  · exact advance_drawCharts _ progress

theorem spares_of_renderer
    (h : ∀ chart state path, (tools.renderer chart state).2.1.readTrace path =
      state.1.readTrace path) (config : Config) (traces : List LabeledPath)
    (progress : Progress μ) : progress.Spares tools config traces progress.tree := by
  have hsteps (steps : List Step) (state : FileTree × μ) (path : Path) :
      (Step.performAll tools.renderer steps state).2.1.readTrace path =
        state.1.readTrace path := by
    induction steps generalizing state with
    | nil => rfl
    | cons step steps ih =>
      rw [Step.performAll, ih]
      cases step with
      | draw stage chart =>
        cases chart with
        | error cause => rfl
        | ok chart => exact h chart state path
      | leaveOut trace cause => rfl
      | skipComparison parsed => rfl
  have htraces (before : List LabeledPath) (progress : Progress μ) (path : Path) :
      (progress.processTraces tools config before).2.tree.readTrace path =
        progress.tree.readTrace path := by
    induction before generalizing progress with
    | nil => rfl
    | cons trace before ih =>
      have hstate : (progress.processTraces tools config [trace]).2.state =
          (Step.performAll tools.renderer (progress.tree.traceSteps config trace)
            progress.state).2 :=
        (advance_processTraces_singleton rfl).2.state
      have hread := congrArg (fun state => state.1.readTrace path) hstate
      rw [processTraces_cons, ih]
      exact hread.trans (hsteps _ _ path)
  intro before trace after _
  exact htraces before progress trace.path

end Progress

/-! ## Counting steps -/

theorem length_flatMap_three {α β : Type} (a b c : α → β) (list : List α) :
    (list.flatMap fun x => [a x, b x, c x]).length = 3 * list.length := by
  induction list with
  | nil => rfl
  | cons x list ih =>
    rw [List.flatMap_cons, List.length_append, ih, List.length_cons]
    simp only [List.length_cons, List.length_nil]
    omega

namespace FileTree

/-- The report of a trace, if it can be read. -/
def report? (tree : FileTree) (config : Config) (trace : LabeledPath) : Option Report :=
  (tree.readTrace trace.path).toOption.map fun read =>
    .ofTrace config.cutoffs (.ofEvents trace.path.displayName config.cutoffs read.events)

variable {tree : FileTree} {config : Config} {traces : List LabeledPath}

theorem map_ofTrace_parsedTraces :
    (tree.parsedTraces config traces).map (fun parsed => .ofTrace config.cutoffs parsed.2) =
      traces.filterMap (tree.report? config) := by
  have hsame : (fun trace : LabeledPath =>
      ((tree.classifyTrace config trace.path).toOption.map fun parsed =>
        (trace.label, parsed)).map fun parsed => Report.ofTrace config.cutoffs parsed.2) =
      tree.report? config := by
    funext trace
    rw [classifyTrace, report?]
    cases tree.readTrace trace.path <;> rfl
  rw [parsedTraces, List.map_filterMap, hsame]

theorem length_parsedTraces_le : (tree.parsedTraces config traces).length ≤ traces.length := by
  rw [parsedTraces]
  exact List.length_filterMap_le _ traces

theorem length_flatMap_traceSteps :
    (traces.flatMap (tree.traceSteps config)).length =
      3 * (tree.parsedTraces config traces).length +
        (traces.length - (tree.parsedTraces config traces).length) := by
  induction traces with
  | nil => rfl
  | cons trace traces ih =>
    have hle : (tree.parsedTraces config traces).length ≤ traces.length := length_parsedTraces_le
    rw [List.flatMap_cons, List.length_append, ih, parsedTraces_cons, List.length_append,
      List.length_cons]
    cases hclassify : tree.classifyTrace config trace.path with
    | error cause =>
      rw [traceSteps_of_error hclassify, parsedTraces_of_error hclassify, List.length_singleton,
        List.length_nil]
      omega
    | ok parsed =>
      have hthree : (Progress.traceCharts config.binning parsed).length = 3 := rfl
      rw [traceSteps_of_ok hclassify, parsedTraces_of_ok hclassify, Step.length_drawAll, hthree,
        List.length_singleton]
      omega

end FileTree

namespace Step

theorem chart?_traceSteps {tree : FileTree} {config : Config} {trace : LabeledPath} :
    (tree.traceSteps config trace).filterMap chart? =
      (tree.parsedTraces config [trace]).flatMap fun parsed =>
        (Progress.traceCharts config.binning parsed.2).map (·.2) := by
  cases hclassify : tree.classifyTrace config trace.path with
  | error cause =>
    rw [FileTree.traceSteps_of_error hclassify, FileTree.parsedTraces_of_error hclassify]
    rfl
  | ok parsed =>
    rw [FileTree.traceSteps_of_ok hclassify, FileTree.parsedTraces_of_ok hclassify,
      List.flatMap_singleton]
    exact filterMap_chart?_drawAll _

theorem chart?_flatMap_traceSteps {tree : FileTree} {config : Config}
    {traces : List LabeledPath} :
    (traces.flatMap (tree.traceSteps config)).filterMap chart? =
      (tree.parsedTraces config traces).flatMap fun parsed =>
        (Progress.traceCharts config.binning parsed.2).map (·.2) := by
  induction traces with
  | nil => rfl
  | cons trace traces ih =>
    rw [FileTree.parsedTraces_cons traces, List.flatMap_cons,
      List.filterMap_append, ih, chart?_traceSteps, List.flatMap_append]

theorem chart?_comparisonSteps (scale : LogScale) (binning : Binning) (token : RunToken)
    (traces : List (String × ClassifiedTrace)) :
    (comparisonSteps scale binning token traces).filterMap chart? =
      if traces.length < 2 then []
      else (Progress.comparisonCharts scale binning token traces).map (·.2) := by
  unfold comparisonSteps
  split
  · rfl
  · exact filterMap_chart?_drawAll _

end Step

/-! ## The summary -/

/-- All steps of a comparison, worked out from the files at its start. -/
def CompareArgs.steps (args : CompareArgs) (scale : LogScale) (tree : FileTree) : List Step :=
  args.traces.flatMap (tree.traceSteps args.config) ++
    comparisonSteps scale args.config.binning (.ofFirst args.traces)
      (tree.parsedTraces args.config args.traces)

theorem CompareArgs.chart?_steps (args : CompareArgs) (scale : LogScale) (tree : FileTree) :
    (args.steps scale tree).filterMap Step.chart? =
      ((tree.parsedTraces args.config args.traces).flatMap fun trace =>
        [Chart.latencyVsSize args.config.binning trace.2 .malloc,
          Chart.latencyVsSize args.config.binning trace.2 .free,
          Chart.combined args.config.binning trace.2]) ++
      (if (tree.parsedTraces args.config args.traces).length < 2 then []
      else
        [Operation.malloc, .free].map fun operation =>
          Chart.logComparison scale args.config.binning (.ofFirst args.traces)
            (tree.parsedTraces args.config args.traces) operation) := by
  rw [steps, List.filterMap_append, Step.chart?_flatMap_traceSteps, Step.chart?_comparisonSteps]
  rfl

theorem CompareArgs.length_steps (args : CompareArgs) (scale : LogScale) (tree : FileTree) :
    (args.steps scale tree).length =
      3 * (tree.parsedTraces args.config args.traces).length +
        (args.traces.length - (tree.parsedTraces args.config args.traces).length) +
        if (tree.parsedTraces args.config args.traces).length < 2 then 1 else 2 := by
  rw [steps, List.length_append, FileTree.length_flatMap_traceSteps, comparisonSteps]
  split
  · rfl
  · rw [Step.length_drawAll]
    rfl

theorem CompareArgs.advance_drawn {args : CompareArgs} {tree : FileTree} {memory : μ}
    (h : ({ tree, memory } : Progress μ).Spares tools args.config args.traces tree) :
    Progress.Advance tools.renderer (args.steps tools.scale tree)
      (args.traces.filterMap (tree.report? args.config)) { tree, memory }
      (args.drawn tools tree memory) := by
  obtain ⟨hparsed, hadvance⟩ := Progress.advance_processTraces h
  rw [FileTree.map_ofTrace_parsedTraces] at hadvance
  rw [drawn, hparsed, ← List.append_nil (args.traces.filterMap _)]
  exact hadvance.trans (Progress.advance_drawComparison _ _ _ _ _)

/-- Nothing is lost in a comparison that comes to an end. There is one report for each trace that
can be read, made of that trace alone. Three charts of each such trace and, if there are two of
them, one chart of each operation across traces are attempted in that order. The result of every
step, which is a path or a failure, is in the summary once. -/
theorem comparison_accounted {args : CompareArgs} {tree : FileTree} {memory : μ}
    {summary : Summary}
    (hspared : ({ tree, memory } : Progress μ).Spares tools args.config args.traces tree)
    (hdone : (compareTraces tools args tree memory).1 = .ok summary) :
    let given := args.traces.length
    let binning := args.config.binning
    let token := RunToken.ofFirst args.traces
    let parsed := tree.parsedTraces args.config args.traces
    let steps := args.steps tools.scale tree
    let charts := steps.filterMap Step.chart?
    let results := (Step.performAll tools.renderer steps (tree, memory)).1
    (given = 2 ∨ given = 3) ∧ parsed.length ≤ given ∧
    summary.reports = args.traces.filterMap (tree.report? args.config) ∧
    summary.reports.length = parsed.length ∧
    charts = (parsed.flatMap fun trace =>
        [Chart.latencyVsSize binning trace.2 .malloc, Chart.latencyVsSize binning trace.2 .free,
          Chart.combined binning trace.2]) ++
      (if parsed.length < 2 then []
      else
        [Chart.logComparison tools.scale binning token parsed .malloc,
          Chart.logComparison tools.scale binning token parsed .free]) ∧
    List.Forall₂ Step.Gives steps results ∧
    summary.charts = Step.paths results ∧ summary.failures = Step.failures results ∧
    (2 ≤ parsed.length → charts.length = 3 * parsed.length + 2 ∧
      summary.charts.length + summary.failures.length =
        3 * parsed.length + 2 + (given - parsed.length)) ∧
    (parsed.length < 2 → summary.charts.length + summary.failures.length =
      3 * parsed.length + (given - parsed.length) + 1) := by
  intro given binning token parsed steps charts results
  have hrefused : ¬args.Refused := by
    intro h
    obtain ⟨cause, hcause⟩ := CompareArgs.compareTraces_of_refused h
    rw [hcause] at hdone
    cases hdone
  rw [CompareArgs.compareTraces_of_not_refused hrefused] at hdone
  have hcount : given = 2 ∨ given = 3 := by
    apply Decidable.byContradiction
    intro hcount
    exact hrefused (.traceCount hcount)
  have hsummary := Progress.summary_of_finish hdone
  have hadvance := CompareArgs.advance_drawn hspared
  have hreports : summary.reports = args.traces.filterMap (tree.report? args.config) := by
    rw [hsummary, hadvance.reports]
    rfl
  have hcharts : summary.charts = Step.paths results := by
    rw [hsummary, hadvance.charts]
    rfl
  have hfailures : summary.failures = Step.failures results := by
    rw [hsummary, hadvance.failures]
    rfl
  have hresults : List.Forall₂ Step.Gives steps results :=
    Step.gives_performAll steps (tree, memory)
  have hattempts := CompareArgs.chart?_steps args tools.scale tree
  have htotal : summary.charts.length + summary.failures.length =
      3 * parsed.length + (given - parsed.length) + if parsed.length < 2 then 1 else 2 := by
    rw [hcharts, hfailures, Step.length_paths_add_failures, ← hresults.length_eq]
    exact CompareArgs.length_steps args tools.scale tree
  refine ⟨hcount, FileTree.length_parsedTraces_le, hreports, ?_, hattempts, hresults, hcharts,
    hfailures, ?_, ?_⟩
  · rw [hreports, ← FileTree.map_ofTrace_parsedTraces, List.length_map]
  · intro htwo
    rw [if_neg (Nat.not_lt.2 htwo)] at htotal
    refine ⟨?_, by omega⟩
    show ((args.steps tools.scale tree).filterMap Step.chart?).length = _
    rw [hattempts, if_neg (Nat.not_lt.2 htwo), List.length_append, length_flatMap_three]
    rfl
  · intro hfew
    rw [if_pos hfew] at htotal
    exact htotal

/-- A renderer that fails every other time and leaves all files alone. -/
def sampleTools : Tools Nat where
  scale := ⟨id, id⟩
  renderer := fun chart (tree, calls) =>
    (if calls % 2 = 0 then .ok (.ofText chart.stem) else .error (.emptyChart chart.stem),
      tree, calls + 1)
  time := ""

def sampleTree : FileTree where
  entries := [
    (bytesOf "run_a.csv", .file (bytesOf "#\n#\nmalloc,1048576,1,500\nfree,1048576,1,300")),
    (bytesOf "run_b.csv", .file (bytesOf "#\n#\nmalloc,2097152,1,700\nfree,1048576,1,900"))]

/-- Three traces, of which the second is missing. -/
def sampleComparison : CompareArgs where
  traces := [⟨"a", .ofText "run_a.csv"⟩, ⟨"missing", .ofText "run_m.csv"⟩,
    ⟨"b", .ofText "run_b.csv"⟩]
  config := { binning := { heatMapBins := 2, combinedBins := 2, logBins := 2 } }

theorem comparison_accounted_sample :
    ∃ summary, (compareTraces sampleTools sampleComparison sampleTree 0).1 = .ok summary ∧
      summary.reports.length = 2 ∧ summary.charts.length + summary.failures.length = 9 := by
  obtain ⟨summary, hdone⟩ :
      ∃ summary, (compareTraces sampleTools sampleComparison sampleTree 0).1 = .ok summary :=
    exists_of_isOk (by decide +kernel)
  have hparsed : (sampleTree.parsedTraces sampleComparison.config
      sampleComparison.traces).length = 2 := by decide +kernel
  have hrenderer : ∀ chart state path,
      (sampleTools.renderer chart state).2.1.readTrace path = state.1.readTrace path :=
    fun _ _ _ => rfl
  have hspared : ({ tree := sampleTree, memory := 0 } : Progress Nat).Spares sampleTools
      sampleComparison.config sampleComparison.traces sampleTree :=
    Progress.spares_of_renderer hrenderer _ _ _
  obtain ⟨-, -, -, hreports, -, -, -, -, htotal, -⟩ := comparison_accounted hspared hdone
  refine ⟨summary, hdone, hreports.trans hparsed, ?_⟩
  have hgiven : sampleComparison.traces.length = 3 := rfl
  have hall := (htotal (Nat.le_of_eq hparsed.symm)).2
  omega

end HeapLatency
