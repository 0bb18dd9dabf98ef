import HeapLatency.Proofs.Command.Rendering

/-!
# Commands that come to an end

What is known of a command once it has ended, with failed steps or without: every chart that it
lists is a file, the reports that it printed and wrote are those of the traces that it could read,
and if no step failed then no trace was left out.
-/

namespace HeapLatency

variable {μ : Type} {tools : Tools μ}

/-! ## Files that stay files -/

namespace FileTree

/-- A path leads to a file. -/
def IsFile (tree : FileTree) (path : Path) : Prop := ∃ content, tree.read path = .ok content

variable {before after : FileTree} {path : Path}

/-- A file may get another content, but it stays a file. -/
theorem Keeps.isFile {touched : Location → Prop} (h : Keeps touched before after)
    (hfile : before.IsFile path) : after.IsFile path := by
  obtain ⟨content, hread⟩ := hfile
  obtain ⟨location, hresolve, hcontent⟩ := read_eq_ok_iff.1 hread
  obtain ⟨node, hnode, hkind, -⟩ := h.root location _ (fileAt?_eq_some_iff.1 hcontent)
  cases node with
  | directory entries => cases hkind
  | file other =>
    exact ⟨other, read_eq_ok_iff.2 ⟨location, h.resolve hresolve, fileAt?_eq_some_iff.2 hnode⟩⟩

end FileTree

namespace Step

variable {scale : LogScale} {canvas : Canvas} {format : ChartFormat} {directory : Path}

theorem isFile_perform {path : Path} (step : Step) (state : FileTree × μ)
    (h : state.1.IsFile path) :
    (step.perform (.toFiles scale canvas format directory) state).2.1.IsFile path := by
  obtain ⟨tree, memory⟩ := state
  rcases perform_toFiles scale canvas format directory step tree memory with
    ⟨failure, left, hperform, hkeeps⟩ | ⟨_, _, _, after, -, -, -, hperform, hwritten⟩
  · rw [hperform]
    exact hkeeps.isFile h
  · rw [hperform]
    exact hwritten.keeps.isFile h

theorem isFile_performAll {path : Path} {steps : List Step} {state : FileTree × μ}
    (h : state.1.IsFile path) :
    (performAll (.toFiles scale canvas format directory) steps state).2.1.IsFile path := by
  induction steps generalizing state with
  | nil => exact h
  | cons step steps ih => exact ih (isFile_perform step state h)

theorem isFile_of_mem_paths {path : Path} {steps : List Step} {state : FileTree × μ}
    (h : path ∈ paths (performAll (.toFiles scale canvas format directory) steps state).1) :
    (performAll (.toFiles scale canvas format directory) steps state).2.1.IsFile path := by
  induction steps generalizing state with
  | nil => cases h
  | cons step steps ih =>
    obtain ⟨tree, memory⟩ := state
    rw [performAll] at h ⊢
    rcases perform_toFiles scale canvas format directory step tree memory with
      ⟨failure, left, hperform, -⟩ | ⟨_, _, _, after, -, -, -, hperform, hwritten⟩
    · rw [hperform] at h ⊢
      exact ih h
    · rw [hperform] at h ⊢
      rcases List.mem_cons.1 h with rfl | hlater
      · exact isFile_performAll ⟨_, hwritten.read⟩
      · exact ih hlater

/-! ## Steps that all gave a chart -/

theorem length_paths_of_failures_eq_nil {steps : List Step} {results : List (Except Failure Path)}
    (h : List.Forall₂ Gives steps results) (hnone : failures results = []) :
    (paths results).length = steps.length := by
  have hall := length_paths_add_failures results
  rw [hnone, List.length_nil] at hall
  exact hall.trans h.length_eq.symm

theorem isSome_built?_of_failures_eq_nil {steps : List Step}
    {results : List (Except Failure Path)} (h : List.Forall₂ Gives steps results)
    (hnone : failures results = []) : ∀ step ∈ steps, step.built?.isSome = true := by
  induction h with
  | nil => exact fun _ hstep => absurd hstep List.not_mem_nil
  | @cons step result steps results hgives _ ih =>
    cases hgives with
    | drawn stage chart path =>
      exact List.forall_mem_cons.2 ⟨rfl, ih hnone⟩
    | notBuilt stage cause => cases hnone
    | notRendered stage chart cause => cases hnone
    | leftOut trace cause => cases hnone
    | skipped parsed => cases hnone

end Step

namespace Progress

theorem length_stepsOf_of_built {config : Config} {traces : List LabeledPath}
    {progress : Progress μ}
    (h : ∀ step ∈ stepsOf tools config traces progress, step.built?.isSome = true) :
    (stepsOf tools config traces progress).length = 3 * traces.length := by
  induction traces generalizing progress with
  | nil => rfl
  | cons trace traces ih =>
    rw [stepsOf, List.forall_mem_append] at h
    have hrest := ih h.2
    rw [stepsOf, List.length_append, hrest, List.length_cons]
    cases hclassify : progress.tree.classifyTrace config trace.path with
    | error cause =>
      rw [FileTree.traceSteps_of_error hclassify] at h
      have hleft := h.1 _ List.mem_cons_self
      cases hleft
    | ok parsed =>
      have hthree : (traceCharts config.binning parsed).length = 3 := rfl
      rw [FileTree.traceSteps_of_ok hclassify, Step.length_drawAll, hthree]
      omega

end Progress

theorem length_comparisonSteps_of_built {scale : LogScale} {binning : Binning} {token : RunToken}
    {traces : List (String × ClassifiedTrace)}
    (h : ∀ step ∈ comparisonSteps scale binning token traces, step.built?.isSome = true) :
    (comparisonSteps scale binning token traces).length = 2 := by
  unfold comparisonSteps at h ⊢
  split
  · rename_i hfew
    rw [if_pos hfew] at h
    have hskipped := h _ List.mem_cons_self
    cases hskipped
  · rw [Step.length_drawAll]
    rfl

/-! ## Reports -/

/-- The report of the trace at a path, if it can be read. -/
def FileTree.reportAt? (tree : FileTree) (config : Config) (path : Path) : Option Report :=
  (tree.classifyTrace config path).toOption.map (.ofTrace config.cutoffs)

namespace Progress

/-- The traces of a command in their order, each with the files as they are when its turn comes. -/
def turns (tools : Tools μ) (config : Config) :
    List LabeledPath → Progress μ → List (Path × FileTree)
  | [], _ => []
  | trace :: traces, progress =>
    (trace.path, progress.tree) ::
      turns tools config traces (progress.processTraces tools config [trace]).2

/-- The reports of the traces that could be read, in the order of the traces. -/
def reportsOf (config : Config) (turns : List (Path × FileTree)) : List Report :=
  turns.filterMap fun turn => turn.2.reportAt? config turn.1

theorem reportsOf_cons (config : Config) (path : Path) (tree : FileTree)
    (turns : List (Path × FileTree)) :
    reportsOf config ((path, tree) :: turns) =
      (tree.reportAt? config path).toList ++ reportsOf config turns := by
  rw [reportsOf, List.filterMap_cons]
  cases tree.reportAt? config path <;> rfl

theorem map_ofTrace_parsedTraces_singleton (tree : FileTree) (config : Config)
    (trace : LabeledPath) :
    ((tree.parsedTraces config [trace]).map
        fun parsed => Report.ofTrace config.cutoffs parsed.2) =
      (tree.reportAt? config trace.path).toList := by
  rw [FileTree.reportAt?]
  cases hclassify : tree.classifyTrace config trace.path with
  | error cause =>
    rw [FileTree.parsedTraces_of_error hclassify]
    rfl
  | ok parsed =>
    rw [FileTree.parsedTraces_of_ok hclassify]
    rfl

theorem map_ofTrace_processTraces (config : Config) (traces : List LabeledPath)
    (progress : Progress μ) :
    ((progress.processTraces tools config traces).1.map
        fun parsed => Report.ofTrace config.cutoffs parsed.2) =
      reportsOf config (turns tools config traces progress) := by
  induction traces generalizing progress with
  | nil => rfl
  | cons trace traces ih =>
    rw [processTraces_cons, List.map_append, ih, turns, fst_processTraces_singleton,
      map_ofTrace_parsedTraces_singleton, reportsOf_cons]

/-- What was printed is the reports that were made. -/
def Told (progress : Progress μ) : Prop :=
  progress.printed = progress.summary.reports.map Report.summary

theorem Told.of_same {before after : Progress μ} (h : before.Told)
    (hprinted : after.printed = before.printed)
    (hreports : after.summary.reports = before.summary.reports) : after.Told := by
  rw [Told, hprinted, hreports]
  exact h

theorem Told.drawChart {progress : Progress μ} (h : progress.Told) (stage : String)
    (chart : Except BinError Chart) : (progress.drawChart tools stage chart).Told := by
  unfold Progress.drawChart
  split
  · exact h.of_same rfl rfl
  · split
    · exact h.of_same rfl rfl
    · exact h.of_same rfl rfl

theorem Told.drawCharts {progress : Progress μ} (h : progress.Told)
    (charts : List (String × Except BinError Chart)) :
    (progress.drawCharts tools charts).Told := by
  induction charts generalizing progress with
  | nil => exact h
  | cons chart charts ih => exact ih (h.drawChart chart.1 chart.2)

theorem Told.addReport {progress : Progress μ} (h : progress.Told) (report : Report) :
    (progress.addReport report).Told := by
  rw [Told] at h
  rw [Told, Progress.addReport, List.map_append, h]
  rfl

theorem Told.processTrace {progress : Progress μ} (h : progress.Told) (config : Config)
    (path : Path) : (progress.processTrace tools config path).2.Told := by
  rw [processTrace_eq]
  cases progress.tree.classifyTrace config path with
  | error cause => exact h
  | ok parsed => exact (h.drawCharts _).addReport _

theorem Told.processTraces {progress : Progress μ} (h : progress.Told) (config : Config)
    (traces : List LabeledPath) : (progress.processTraces tools config traces).2.Told := by
  induction traces generalizing progress with
  | nil => exact h
  | cons trace traces ih =>
    have hfirst : (progress.processTrace tools config trace.path).2.Told :=
      h.processTrace config trace.path
    rw [Progress.processTraces]
    split
    · rename_i next hnext
      rw [hnext] at hfirst
      exact ih (hfirst.of_same rfl rfl)
    · rename_i next hnext
      rw [hnext] at hfirst
      exact ih hfirst

theorem Told.drawComparison {progress : Progress μ} (h : progress.Told) (binning : Binning)
    (token : RunToken) (given : Nat) (traces : List (String × ClassifiedTrace)) :
    (progress.drawComparison tools binning token given traces).Told := by
  unfold Progress.drawComparison
  split
  · exact h.of_same rfl rfl
  · exact h.drawCharts _

theorem printed_of_finish {progress final : Progress μ} {report : Option Path} {summary : Summary}
    (h : progress.finish tools report = (.ok summary, final)) :
    final.printed = progress.printed := by
  cases report with
  | none =>
    cases h
    rfl
  | some path =>
    rw [finish, writeReports] at h
    cases hwrite : progress.tree.writeStats tools.time path progress.summary.reports with
    | mk outcome tree =>
      simp only [hwrite] at h
      cases outcome with
      | error cause => cases h
      | ok u =>
        cases h
        rfl

end Progress

/-! ## Endings -/

/-- How a command that came to an end has ended: what it lists is what its steps gave, and it lists
nothing but files; what it printed is its reports, and they are in the statistics that were asked
for. -/
structure Ended (tools : Tools μ) (report : Option Path) (steps : List Step)
    (reports : List Report) (start : FileTree × μ) (summary : Summary) (final : Progress μ) :
    Prop where
  gives : List.Forall₂ Step.Gives steps (Step.performAll tools.renderer steps start).1
  charts : summary.charts = Step.paths (Step.performAll tools.renderer steps start).1
  failures : summary.failures = Step.failures (Step.performAll tools.renderer steps start).1
  reports : summary.reports = reports
  printed : final.printed = summary.reports.map Report.summary
  files : ∀ path ∈ summary.charts, final.tree.IsFile path
  stats : ∀ path, report = some path →
    final.tree.read path = .ok (bytesOf (Progress.statsText tools summary))

theorem Ended.length_charts {report : Option Path} {steps : List Step} {reports : List Report}
    {start : FileTree × μ} {summary : Summary} {final : Progress μ}
    (h : Ended tools report steps reports start summary final) (hnone : summary.failures = []) :
    summary.charts.length = steps.length := by
  rw [h.charts]
  exact Step.length_paths_of_failures_eq_nil h.gives (h.failures ▸ hnone)

theorem Ended.built {report : Option Path} {steps : List Step} {reports : List Report}
    {start : FileTree × μ} {summary : Summary} {final : Progress μ}
    (h : Ended tools report steps reports start summary final) (hnone : summary.failures = []) :
    ∀ step ∈ steps, step.built?.isSome = true :=
  Step.isSome_built?_of_failures_eq_nil h.gives (h.failures ▸ hnone)

section Files

variable {scale : LogScale} {canvas : Canvas} {format : ChartFormat} {directory : Path}
  {tree : FileTree} {memory : μ} {summary : Summary} {final : Progress μ}

theorem ended_of_finish (hfiles : tools.renderer = .toFiles scale canvas format directory)
    {steps : List Step} {reports : List Report} {progress : Progress μ} {report : Option Path}
    (hadvance : Progress.Advance tools.renderer steps reports { tree, memory } progress)
    (htold : progress.Told) (hfinish : progress.finish tools report = (.ok summary, final)) :
    Ended tools report steps reports (tree, memory) summary final := by
  have hsummary : summary = progress.summary := Progress.summary_of_finish (by rw [hfinish])
  have hcharts : summary.charts =
      Step.paths (Step.performAll tools.renderer steps (tree, memory)).1 := by
    rw [hsummary, hadvance.charts]
    rfl
  constructor
  case gives => exact Step.gives_performAll steps (tree, memory)
  case charts => exact hcharts
  case failures =>
    rw [hsummary, hadvance.failures]
    rfl
  case reports =>
    rw [hsummary, hadvance.reports]
    rfl
  case printed => rw [Progress.printed_of_finish hfinish, htold, ← hsummary]
  case files =>
    intro path hpath
    have hstate : progress.tree =
        (Step.performAll tools.renderer steps (tree, memory)).2.1 :=
      congrArg Prod.fst hadvance.state
    rw [hcharts] at hpath
    rw [hfiles] at hpath hstate
    have hdrawn : progress.tree.IsFile path := by
      rw [hstate]
      exact Step.isFile_of_mem_paths hpath
    -- the statistics may be written over a chart, which leaves a file there
    rcases Progress.tree_of_finish hfinish with ⟨-, htree⟩ | ⟨_, _, -, hwritten⟩
    · rw [htree]
      exact hdrawn
    · exact hwritten.keeps.isFile hdrawn
  case stats =>
    rintro path rfl
    rcases Progress.tree_of_finish hfinish with ⟨hnone, -⟩ | ⟨report, location, hsame, hwritten⟩
    · cases hnone
    · cases hsame
      exact hwritten.read

theorem CompareArgs.ended (hfiles : tools.renderer = .toFiles scale canvas format directory)
    {args : CompareArgs} (h : compareTraces tools args tree memory = (.ok summary, final)) :
    Ended tools args.report (args.run tools tree memory)
      (Progress.reportsOf args.config
        (Progress.turns tools args.config args.traces { tree, memory }))
      (tree, memory) summary final := by
  obtain ⟨-, hfinish⟩ := finish_of_ok h
  have hadvance := args.advance_parsed tools tree memory
  rw [parsed, Progress.map_ofTrace_processTraces] at hadvance
  have hstart : ({ tree, memory } : Progress μ).Told := rfl
  have htold : (args.drawn tools tree memory).Told :=
    (hstart.processTraces args.config args.traces).drawComparison _ _ _ _
  exact ended_of_finish hfiles hadvance htold hfinish

theorem AnalyzeArgs.ended (hfiles : tools.renderer = .toFiles scale canvas format directory)
    {args : AnalyzeArgs} (h : analyzeTrace tools args tree memory = (.ok summary, final)) :
    Ended tools args.report (args.run tree)
      (Progress.reportsOf args.config [(args.trace, tree)]) (tree, memory) summary final := by
  have hfinish := finish_of_ok h
  have hadvance := args.advance_parsed tools tree memory
  have hreports : (tree.classifyTrace args.config args.trace).toOption.toList.map
      (.ofTrace args.config.cutoffs) =
      Progress.reportsOf args.config [(args.trace, tree)] := by
    rw [Progress.reportsOf_cons, FileTree.reportAt?]
    cases tree.classifyTrace args.config args.trace <;> rfl
  rw [hreports] at hadvance
  have hstart : ({ tree, memory } : Progress μ).Told := rfl
  exact ended_of_finish hfiles hadvance (hstart.processTrace args.config args.trace) hfinish

theorem CompareArgs.length_charts (hfiles : tools.renderer = .toFiles scale canvas format directory)
    {args : CompareArgs} (h : compareTraces tools args tree memory = (.ok summary, final))
    (hnone : summary.failures = []) :
    summary.charts.length = 3 * args.traces.length + 2 := by
  have hended := ended hfiles h
  have hbuilt := hended.built hnone
  rw [run, List.forall_mem_append] at hbuilt
  rw [hended.length_charts hnone, run, List.length_append,
    Progress.length_stepsOf_of_built hbuilt.1, length_comparisonSteps_of_built hbuilt.2]

theorem AnalyzeArgs.length_charts (hfiles : tools.renderer = .toFiles scale canvas format directory)
    {args : AnalyzeArgs} (h : analyzeTrace tools args tree memory = (.ok summary, final))
    (hnone : summary.failures = []) : summary.charts.length = 3 := by
  rw [(ended hfiles h).length_charts hnone, run, FileTree.classifyTrace]
  cases hread : tree.readTrace args.trace with
  | error cause => exact absurd (.noTrace cause hread) (not_refused_of_ok h)
  | ok read => exact Step.length_drawAll _

end Files

end HeapLatency
