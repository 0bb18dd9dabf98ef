import HeapLatency.Proofs.Chart.Names
import HeapLatency.Proofs.Command.Accounting
import HeapLatency.Proofs.Files.Locations
import HeapLatency.Proofs.Trace.Classified

/-!
# Runs

The steps of a command as they are done. A trace is read when its turn comes, so what a chart
overwrites before then counts as well. The charts of a run are named after the traces that it
could read.
-/

namespace HeapLatency

variable {μ : Type} {tools : Tools μ}

/-! ## Traces that were read -/

namespace FileTree

theorem exists_read_of_classifyTrace {tree : FileTree} {config : Config} {path : Path}
    {parsed : ClassifiedTrace} (h : tree.classifyTrace config path = .ok parsed) :
    ∃ content, tree.read path = .ok content := by
  obtain ⟨trace, htrace, -⟩ := map_eq_ok.1 h
  rw [readTrace] at htrace
  cases hread : tree.read path with
  | error cause =>
    rw [hread] at htrace
    cases htrace
  | ok content => exact ⟨content, rfl⟩

theorem exists_fileName?_of_classifyTrace {tree : FileTree} {config : Config} {path : Path}
    {parsed : ClassifiedTrace} (h : tree.classifyTrace config path = .ok parsed) :
    parsed.name = path.displayName ∧ ∃ name, path.fileName? = some name := by
  obtain ⟨content, hread⟩ := exists_read_of_classifyTrace h
  obtain ⟨trace, -, rfl⟩ := map_eq_ok.1 h
  exact ⟨ClassifiedTrace.name_ofEvents _ _ _, exists_fileName?_of_read hread⟩

end FileTree

namespace Progress

theorem fst_processTraces_singleton (config : Config) (trace : LabeledPath)
    (progress : Progress μ) : (progress.processTraces tools config [trace]).1 =
      progress.tree.parsedTraces config [trace] :=
  (advance_processTraces_singleton rfl).1

/-- A trace that is read is shown by the name of its file. -/
theorem exists_given_of_mem {config : Config} {traces : List LabeledPath} {progress : Progress μ}
    {parsed : String × ClassifiedTrace}
    (h : parsed ∈ (progress.processTraces tools config traces).1) :
    ∃ trace ∈ traces, parsed.1 = trace.label ∧ parsed.2.name = trace.path.displayName ∧
      ∃ name, trace.path.fileName? = some name := by
  induction traces generalizing progress with
  | nil => cases h
  | cons trace traces ih =>
    rw [processTraces_cons, List.mem_append] at h
    rcases h with hfirst | hrest
    · refine ⟨trace, List.mem_cons_self, ?_⟩
      rw [fst_processTraces_singleton] at hfirst
      cases hclassify : progress.tree.classifyTrace config trace.path with
      | error cause =>
        rw [FileTree.parsedTraces_of_error hclassify] at hfirst
        cases hfirst
      | ok classified =>
        rw [FileTree.parsedTraces_of_ok hclassify, List.mem_singleton] at hfirst
        rw [hfirst]
        exact ⟨rfl, FileTree.exists_fileName?_of_classifyTrace hclassify⟩
    · obtain ⟨given, hgiven, hparsed⟩ := ih hrest
      exact ⟨given, List.mem_cons_of_mem trace hgiven, hparsed⟩

theorem length_processTraces_le (tools : Tools μ) (config : Config) (traces : List LabeledPath)
    (progress : Progress μ) :
    (progress.processTraces tools config traces).1.length ≤ traces.length := by
  induction traces generalizing progress with
  | nil => exact Nat.le_refl 0
  | cons trace traces ih =>
    have hsingle : (progress.processTraces tools config [trace]).1.length ≤ 1 := by
      rw [fst_processTraces_singleton]
      exact FileTree.length_parsedTraces_le
    have hrest := ih (progress.processTraces tools config [trace]).2
    rw [processTraces_cons, List.length_append, List.length_cons]
    omega

/-! ## Steps -/

/-- The steps of working through traces, each read when its turn comes. -/
def stepsOf (tools : Tools μ) (config : Config) : List LabeledPath → Progress μ → List Step
  | [], _ => []
  | trace :: traces, progress =>
    progress.tree.traceSteps config trace ++
      stepsOf tools config traces (progress.processTraces tools config [trace]).2

theorem advance_stepsOf (config : Config) (traces : List LabeledPath) (progress : Progress μ) :
    Advance tools.renderer (stepsOf tools config traces progress)
      ((progress.processTraces tools config traces).1.map
        fun parsed => .ofTrace config.cutoffs parsed.2)
      progress (progress.processTraces tools config traces).2 := by
  induction traces generalizing progress with
  | nil => exact Advance.refl
  | cons trace traces ih =>
    have hfirst : Advance tools.renderer (progress.tree.traceSteps config trace)
        ((progress.tree.parsedTraces config [trace]).map
          fun parsed => .ofTrace config.cutoffs parsed.2)
        progress (progress.processTraces tools config [trace]).2 :=
      (advance_processTraces_singleton rfl).2
    rw [processTraces_cons, List.map_append, fst_processTraces_singleton]
    exact hfirst.trans (ih _)

end Progress

/-- The traces that a comparison could read, under their labels. -/
def CompareArgs.parsed (args : CompareArgs) (tools : Tools μ) (tree : FileTree) (memory : μ) :
    List (String × ClassifiedTrace) :=
  (({ tree, memory } : Progress μ).processTraces tools args.config args.traces).1

/-- The steps of a comparison. -/
def CompareArgs.run (args : CompareArgs) (tools : Tools μ) (tree : FileTree) (memory : μ) :
    List Step :=
  Progress.stepsOf tools args.config args.traces { tree, memory } ++
    comparisonSteps tools.scale args.config.binning (.ofFirst args.traces)
      (args.parsed tools tree memory)

theorem CompareArgs.advance_parsed (args : CompareArgs) (tools : Tools μ) (tree : FileTree)
    (memory : μ) :
    Progress.Advance tools.renderer (args.run tools tree memory)
      ((args.parsed tools tree memory).map fun parsed => .ofTrace args.config.cutoffs parsed.2)
      { tree, memory } (args.drawn tools tree memory) := by
  rw [← List.append_nil (List.map _ _)]
  exact (Progress.advance_stepsOf _ _ _).trans (Progress.advance_drawComparison _ _ _ _ _)

theorem CompareArgs.advance_run (args : CompareArgs) (tools : Tools μ) (tree : FileTree)
    (memory : μ) :
    ∃ reports, Progress.Advance tools.renderer (args.run tools tree memory) reports
      { tree, memory } (args.drawn tools tree memory) :=
  ⟨_, args.advance_parsed tools tree memory⟩

/-- The steps of an analysis. -/
def AnalyzeArgs.run (args : AnalyzeArgs) (tree : FileTree) : List Step :=
  match tree.classifyTrace args.config args.trace with
  | .error _ => []
  | .ok parsed => Step.drawAll (Progress.traceCharts args.config.binning parsed)

theorem AnalyzeArgs.advance_parsed (args : AnalyzeArgs) (tools : Tools μ) (tree : FileTree)
    (memory : μ) :
    Progress.Advance tools.renderer (args.run tree)
      ((tree.classifyTrace args.config args.trace).toOption.toList.map
        (.ofTrace args.config.cutoffs))
      { tree, memory } (args.drawn tools tree memory) := by
  rw [drawn, run, Progress.processTrace_eq]
  cases tree.classifyTrace args.config args.trace with
  | error cause => exact Progress.Advance.refl
  | ok parsed =>
    have hcharts : Progress.Advance tools.renderer _ [] _ _ := Progress.advance_drawCharts
      (Progress.traceCharts args.config.binning parsed) { tree, memory }
    have hall := hcharts.trans
      (Progress.advance_addReport (.ofTrace args.config.cutoffs parsed) _)
    rwa [List.append_nil, List.nil_append] at hall

theorem AnalyzeArgs.advance_run (args : AnalyzeArgs) (tools : Tools μ) (tree : FileTree)
    (memory : μ) :
    ∃ reports, Progress.Advance tools.renderer (args.run tree) reports
      { tree, memory } (args.drawn tools tree memory) :=
  ⟨_, args.advance_parsed tools tree memory⟩

/-! ## Runs that come to an end -/

theorem CompareArgs.finish_of_ok {args : CompareArgs} {tree : FileTree} {memory : μ}
    {summary : Summary} {final : Progress μ}
    (h : compareTraces tools args tree memory = (.ok summary, final)) :
    ¬args.Refused ∧ (args.drawn tools tree memory).finish tools args.report =
      (.ok summary, final) := by
  have hrefused : ¬args.Refused := by
    intro hrefused
    obtain ⟨cause, hcause⟩ := compareTraces_of_refused hrefused
    rw [hcause] at h
    cases h
  exact ⟨hrefused, by rw [← compareTraces_of_not_refused hrefused, h]⟩

theorem AnalyzeArgs.not_refused_of_ok {args : AnalyzeArgs} {tree : FileTree} {memory : μ}
    {summary : Summary} {final : Progress μ}
    (h : analyzeTrace tools args tree memory = (.ok summary, final)) : ¬args.Refused tree := by
  intro hrefused
  obtain ⟨cause, hcause⟩ := analyzeTrace_of_refused hrefused
  rw [hcause] at h
  cases h

theorem AnalyzeArgs.finish_of_ok {args : AnalyzeArgs} {tree : FileTree} {memory : μ}
    {summary : Summary} {final : Progress μ}
    (h : analyzeTrace tools args tree memory = (.ok summary, final)) :
    (args.drawn tools tree memory).finish tools args.report = (.ok summary, final) := by
  rw [← analyzeTrace_of_not_refused (not_refused_of_ok h), h]

/-! ## Charts -/

namespace Step

/-- The chart of a step, if it could be built. -/
def built? (step : Step) : Option Chart := step.chart?.bind Except.toOption

def stems (steps : List Step) : List String := (steps.filterMap built?).map Chart.stem

theorem stems_append (first second : List Step) :
    stems (first ++ second) = stems first ++ stems second := by
  rw [stems, List.filterMap_append, List.map_append]
  rfl

theorem stems_drawAll_sublist {charts : List (String × Except BinError Chart)}
    {names : List String} (h : List.Forall₂
      (fun attempt name => ∀ chart, attempt.2 = .ok chart → chart.stem = name) charts names) :
    (stems (drawAll charts)).Sublist names := by
  induction h with
  | nil => exact List.Sublist.refl []
  | @cons attempt name charts names hfirst _ ih =>
    obtain ⟨stage, outcome⟩ := attempt
    cases outcome with
    | error cause => exact ih.cons name
    | ok chart =>
      have hname : chart.stem = name := hfirst chart rfl
      rw [← hname]
      exact ih.cons_cons chart.stem

theorem stems_traceCharts (binning : Binning) (trace : ClassifiedTrace) :
    (stems (drawAll (Progress.traceCharts binning trace))).Sublist
      (Chart.traceStems trace.name) := by
  apply stems_drawAll_sublist
  exact .cons (fun _ => Chart.stem_of_latencyVsSize)
    (.cons (fun _ => Chart.stem_of_latencyVsSize) (.cons (fun _ => Chart.stem_of_combined) .nil))

theorem stems_comparisonSteps (scale : LogScale) (binning : Binning) (token : RunToken)
    (traces : List (String × ClassifiedTrace)) :
    (stems (comparisonSteps scale binning token traces)).Sublist
      (Chart.comparisonStems token (traces.map (·.1))) := by
  rw [comparisonSteps, Chart.comparisonStems, List.length_map]
  split
  · exact List.nil_sublist _
  · apply stems_drawAll_sublist
    exact .cons (fun _ => Chart.stem_of_logComparison)
      (.cons (fun _ => Chart.stem_of_logComparison) .nil)

theorem stems_stepsOf (config : Config) (traces : List LabeledPath) (progress : Progress μ) :
    (stems (Progress.stepsOf tools config traces progress)).Sublist
      (((progress.processTraces tools config traces).1.map (·.2.name)).flatMap
        Chart.traceStems) := by
  induction traces generalizing progress with
  | nil => exact List.nil_sublist _
  | cons trace traces ih =>
    rw [Progress.stepsOf, stems_append, Progress.processTraces_cons config trace traces,
      List.map_append, List.flatMap_append]
    refine List.Sublist.append ?_ (ih _)
    rw [Progress.fst_processTraces_singleton]
    cases hclassify : progress.tree.classifyTrace config trace.path with
    | error cause =>
      rw [FileTree.traceSteps_of_error hclassify]
      exact List.nil_sublist _
    | ok parsed =>
      rw [FileTree.traceSteps_of_ok hclassify, FileTree.parsedTraces_of_ok hclassify,
        List.map_singleton, List.flatMap_singleton]
      exact stems_traceCharts config.binning parsed

theorem exists_given_of_mem_stems {config : Config} {traces : List LabeledPath}
    {progress : Progress μ} {stem : String}
    (h : stem ∈ stems (Progress.stepsOf tools config traces progress)) :
    ∃ trace ∈ traces, stem ∈ Chart.traceStems trace.path.displayName := by
  obtain ⟨name, hname, hstem⟩ :=
    List.mem_flatMap.1 ((stems_stepsOf config traces progress).subset h)
  obtain ⟨parsed, hparsed, rfl⟩ := List.mem_map.1 hname
  obtain ⟨trace, htrace, -, hshown, -⟩ := Progress.exists_given_of_mem hparsed
  rw [hshown] at hstem
  exact ⟨trace, htrace, hstem⟩

end Step

theorem AnalyzeArgs.mem_traceStems {args : AnalyzeArgs} {tree : FileTree} {stem : String}
    (h : stem ∈ Step.stems (args.run tree)) :
    stem ∈ Chart.traceStems args.trace.displayName ∧
      ∃ name, args.trace.fileName? = some name := by
  rw [run] at h
  split at h
  · cases h
  · rename_i parsed hparsed
    obtain ⟨hshown, hname⟩ := FileTree.exists_fileName?_of_classifyTrace hparsed
    rw [← hshown]
    exact ⟨(Step.stems_traceCharts _ _).subset h, hname⟩

theorem CompareArgs.slash_not_mem_name {args : CompareArgs} {tree : FileTree} {memory : μ}
    {name : String} (h : name ∈ (args.parsed tools tree memory).map (·.2.name)) :
    '/' ∉ name.toList := by
  obtain ⟨parsed, hparsed, rfl⟩ := List.mem_map.1 h
  obtain ⟨given, -, -, hshown, _, hfile⟩ := Progress.exists_given_of_mem hparsed
  rw [hshown]
  exact Path.slash_not_mem_displayName hfile

theorem CompareArgs.stems_run (args : CompareArgs) (tree : FileTree) (memory : μ) :
    (Step.stems (args.run tools tree memory)).Sublist
      (((args.parsed tools tree memory).map (·.2.name)).flatMap Chart.traceStems ++
        Chart.comparisonStems (.ofFirst args.traces)
          ((args.parsed tools tree memory).map (·.1))) := by
  rw [run, Step.stems_append]
  exact (Step.stems_stepsOf _ _ _).append (Step.stems_comparisonSteps _ _ _ _)

end HeapLatency
