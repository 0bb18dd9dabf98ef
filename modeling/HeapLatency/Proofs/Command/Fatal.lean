import HeapLatency.Command.Run
import HeapLatency.Proofs.Files.Obstacles

/-!
# Fatal errors

What makes a command stop. All of it but a statistics file that cannot be written is found out
before anything is drawn, printed or written.
-/

namespace HeapLatency

variable {μ : Type}

/-! ## One run -/

namespace RunToken

/-- Two of the traces carry different tokens. -/
def Differ (traces : List LabeledPath) : Prop :=
  ∃ first ∈ traces, ∃ second ∈ traces, ofPath first.path ≠ ofPath second.path

/-- The token of the first trace, the empty one if there is none. -/
def ofFirst (traces : List LabeledPath) : RunToken :=
  (traces.head?.map fun trace => ofPath trace.path).getD ⟨""⟩

theorem differ_cons_iff {first : LabeledPath} {rest : List LabeledPath} :
    Differ (first :: rest) ↔ ∃ trace ∈ rest, ofPath trace.path ≠ ofPath first.path := by
  constructor
  · rintro ⟨one, hone, other, hother, hne⟩
    by_cases hfirst : ofPath one.path = ofPath first.path
    · rw [hfirst] at hne
      rcases List.mem_cons.1 hother with rfl | hother
      · exact absurd rfl hne
      · exact ⟨other, hother, hne.symm⟩
    · rcases List.mem_cons.1 hone with rfl | hone
      · exact absurd rfl hfirst
      · exact ⟨one, hone, hfirst⟩
  · rintro ⟨trace, htrace, hne⟩
    exact ⟨trace, List.mem_cons_of_mem first htrace, first, List.mem_cons_self, hne⟩

theorem verifySameRun_cons (sameRun : Bool) (first : LabeledPath) (rest : List LabeledPath) :
    verifySameRun sameRun (first :: rest) =
      if sameRun && (labeled rest).any fun entry => entry.2 != ofPath first.path then
        .error ⟨labeled (first :: rest)⟩
      else .ok (ofPath first.path) := rfl

theorem any_labeled_iff {first : LabeledPath} {rest : List LabeledPath} :
    ((labeled rest).any fun entry => entry.2 != ofPath first.path) = true ↔
      Differ (first :: rest) := by
  rw [differ_cons_iff, labeled, List.any_map, List.any_eq_true]
  simp

theorem verifySameRun_of_differ {traces : List LabeledPath} (h : Differ traces) :
    verifySameRun true traces = .error ⟨labeled traces⟩ := by
  cases traces with
  | nil =>
    obtain ⟨one, hone, -⟩ := h
    cases hone
  | cons first rest => rw [verifySameRun_cons, any_labeled_iff.2 h, Bool.and_self, if_pos rfl]

theorem verifySameRun_of_not_differ {sameRun : Bool} {traces : List LabeledPath}
    (h : ¬(sameRun = true ∧ Differ traces)) :
    verifySameRun sameRun traces = .ok (ofFirst traces) := by
  cases traces with
  | nil => rfl
  | cons first rest =>
    rw [← any_labeled_iff, ← Bool.and_eq_true] at h
    rw [verifySameRun_cons, if_neg h]
    rfl

end RunToken

/-! ## Comparing -/

namespace CompareArgs

/-- The run tokens have to agree. -/
def SameRunAsked (args : CompareArgs) : Prop :=
  args.sameRun = some true ∨ args.sameRun = none ∧ args.traces.length = 3

/-- What a comparison is refused for. -/
inductive Refused (args : CompareArgs) : Prop where
  | traceCount (h : ¬(args.traces.length = 2 ∨ args.traces.length = 3))
  | emptyPath (trace : LabeledPath) (given : trace ∈ args.traces) (h : trace.path.isEmpty = true)
  | invalidConfig (cause : ConfigFault) (h : args.config.validate = .error cause)
  | differentRuns (asked : args.SameRunAsked) (h : RunToken.Differ args.traces)

theorem requiresSameRun_iff {args : CompareArgs} :
    args.requiresSameRun = true ↔ args.SameRunAsked := by
  rw [requiresSameRun, SameRunAsked]
  cases args.sameRun with
  | none => simp
  | some sameRun => simp

theorem validate_eq_ok_iff {args : CompareArgs} :
    args.validate = .ok () ↔
      (args.traces.length = 2 ∨ args.traces.length = 3) ∧
        (∀ trace ∈ args.traces, trace.path.isEmpty = false) ∧ args.config.validate = .ok () := by
  rw [validate]
  by_cases hcount : args.traces.length < 2 ∨ 3 < args.traces.length
  · rw [if_pos hcount]
    exact iff_of_false nofun fun h => by omega
  · have hlength : args.traces.length = 2 ∨ args.traces.length = 3 := by omega
    rw [if_neg hcount, and_iff_right hlength]
    cases hfind : args.traces.find? fun trace => trace.path.isEmpty with
    | some trace =>
      have hempty := List.find?_some hfind
      refine iff_of_false nofun fun h => ?_
      rw [h.1 trace (List.mem_of_find?_eq_some hfind)] at hempty
      cases hempty
    | none =>
      have hnone : ∀ trace ∈ args.traces, trace.path.isEmpty = false := by
        intro trace htrace
        simpa using List.find?_eq_none.1 hfind trace htrace
      rw [and_iff_right hnone]
      cases args.config.validate with
      | error cause => exact iff_of_false nofun nofun
      | ok u => exact iff_of_true rfl rfl

/-- How far a comparison comes before the statistics are written. -/
def drawn (args : CompareArgs) (tools : Tools μ) (tree : FileTree) (memory : μ) : Progress μ :=
  let start : Progress μ := { tree, memory }
  let done := start.processTraces tools args.config args.traces
  done.2.drawComparison tools args.config.binning (.ofFirst args.traces) args.traces.length done.1

theorem compareTraces_of_not_refused {args : CompareArgs} (h : ¬args.Refused) (tools : Tools μ)
    (tree : FileTree) (memory : μ) :
    compareTraces tools args tree memory =
      (args.drawn tools tree memory).finish tools args.report := by
  have hvalid : args.validate = .ok () := by
    refine validate_eq_ok_iff.2 ⟨?_, ?_, ?_⟩
    · apply Decidable.byContradiction
      intro hcount
      exact h (.traceCount hcount)
    · intro trace htrace
      rw [← Bool.not_eq_true]
      intro hempty
      exact h (.emptyPath trace htrace hempty)
    · cases hconfig : args.config.validate with
      | ok u => rfl
      | error cause => exact absurd (.invalidConfig cause hconfig) h
  have hrun : ¬(args.requiresSameRun = true ∧ RunToken.Differ args.traces) := by
    rintro ⟨hasked, hdiffer⟩
    exact h (.differentRuns (requiresSameRun_iff.1 hasked) hdiffer)
  rw [compareTraces, hvalid, RunToken.verifySameRun_of_not_differ hrun]
  rfl

/-- The error of a refusal does not depend on any file, nor on the renderer. -/
theorem compareTraces_of_refused {args : CompareArgs} (h : args.Refused) :
    ∃ cause, ∀ (tools : Tools μ) (tree : FileTree) (memory : μ),
      compareTraces tools args tree memory = (.error cause, { tree, memory }) := by
  cases hvalid : args.validate with
  | error cause =>
    refine ⟨cause, fun tools tree memory => ?_⟩
    rw [compareTraces, hvalid]
  | ok u =>
    obtain ⟨hcount, hpaths, hconfig⟩ := validate_eq_ok_iff.1 hvalid
    -- what is left of the reasons is that the tokens differ
    have hrun : args.requiresSameRun = true ∧ RunToken.Differ args.traces := by
      cases h with
      | traceCount h => exact absurd hcount h
      | emptyPath trace given h => rw [hpaths trace given] at h; cases h
      | invalidConfig cause h => rw [hconfig] at h; cases h
      | differentRuns asked h => exact ⟨requiresSameRun_iff.2 asked, h⟩
    refine ⟨.differentRuns ⟨RunToken.labeled args.traces⟩, fun tools tree memory => ?_⟩
    rw [compareTraces, hvalid, hrun.1, RunToken.verifySameRun_of_differ hrun.2]

end CompareArgs

/-! ## Analyzing -/

namespace AnalyzeArgs

/-- What an analysis is refused for. -/
inductive Refused (tree : FileTree) (args : AnalyzeArgs) : Prop where
  | emptyPath (h : args.trace.isEmpty = true)
  | directoryPath (h : tree.isDirectory args.trace = true)
  | invalidConfig (cause : ConfigFault) (h : args.config.validate = .error cause)
  | noTrace (cause : TraceError) (h : tree.readTrace args.trace = .error cause)

theorem validate_eq_ok_iff {tree : FileTree} {args : AnalyzeArgs} :
    args.validate tree = .ok () ↔
      args.trace.isEmpty = false ∧ tree.isDirectory args.trace = false ∧
        args.config.validate = .ok () := by
  rw [validate]
  by_cases hempty : args.trace.isEmpty = true
  · rw [if_pos hempty, hempty]
    exact iff_of_false nofun nofun
  · rw [if_neg hempty, and_iff_right (eq_false_of_ne_true hempty)]
    by_cases hdirectory : tree.isDirectory args.trace = true
    · rw [if_pos hdirectory, hdirectory]
      exact iff_of_false nofun nofun
    · rw [if_neg hdirectory, and_iff_right (eq_false_of_ne_true hdirectory)]
      cases args.config.validate with
      | error cause => exact iff_of_false nofun nofun
      | ok u => exact iff_of_true rfl rfl

/-- How far an analysis comes before the statistics are written. -/
def drawn (args : AnalyzeArgs) (tools : Tools μ) (tree : FileTree) (memory : μ) : Progress μ :=
  (({ tree, memory } : Progress μ).processTrace tools args.config args.trace).2

theorem analyzeTrace_of_not_refused {tree : FileTree} {args : AnalyzeArgs}
    (h : ¬args.Refused tree) (tools : Tools μ) (memory : μ) :
    analyzeTrace tools args tree memory =
      (args.drawn tools tree memory).finish tools args.report := by
  have hvalid : args.validate tree = .ok () := by
    refine validate_eq_ok_iff.2 ⟨?_, ?_, ?_⟩
    · rw [← Bool.not_eq_true]
      intro hempty
      exact h (.emptyPath hempty)
    · rw [← Bool.not_eq_true]
      intro hdirectory
      exact h (.directoryPath hdirectory)
    · cases hconfig : args.config.validate with
      | ok u => rfl
      | error cause => exact absurd (.invalidConfig cause hconfig) h
  cases hread : tree.readTrace args.trace with
  | error cause => exact absurd (.noTrace cause hread) h
  | ok read =>
    rw [analyzeTrace, hvalid, drawn, Progress.processTrace, hread]

theorem analyzeTrace_of_refused {tree : FileTree} {args : AnalyzeArgs} (h : args.Refused tree) :
    ∃ cause, ∀ (tools : Tools μ) (memory : μ),
      analyzeTrace tools args tree memory = (.error cause, { tree, memory }) := by
  cases hvalid : args.validate tree with
  | error cause =>
    refine ⟨cause, fun tools memory => ?_⟩
    rw [analyzeTrace, hvalid]
  | ok u =>
    obtain ⟨hempty, hdirectory, hconfig⟩ := validate_eq_ok_iff.1 hvalid
    -- what is left of the reasons is the trace itself
    cases h with
    | emptyPath h => rw [hempty] at h; cases h
    | directoryPath h => rw [hdirectory] at h; cases h
    | invalidConfig cause h => rw [hconfig] at h; cases h
    | noTrace cause h =>
      refine ⟨.trace args.trace cause, fun tools memory => ?_⟩
      rw [analyzeTrace, hvalid, Progress.processTrace, h]

end AnalyzeArgs

/-! ## Ending -/

namespace Progress

/-- Statistics are asked for, and cannot be written. -/
def StatsFailed (progress : Progress μ) (tools : Tools μ) (report : Option Path) : Prop :=
  ∃ path cause, report = some path ∧
    (progress.tree.writeStats tools.time path progress.summary.reports).1 = .error cause

/-- Along names that are no dots, statistics cannot be written exactly where something stands in the
way of their path. -/
theorem statsFailed_iff {progress : Progress μ} {tools : Tools μ} {path : Path} {start : Location}
    (hnames : ∀ name ∈ path.components, Path.IsName name)
    (hstart : progress.tree.originAt path = .ok start) :
    progress.StatsFailed tools (some path) ↔ progress.tree.Obstructed path := by
  constructor
  · rintro ⟨path, cause, hreport, hcause⟩
    cases hreport
    by_contra hobstructed
    obtain ⟨after, hafter⟩ := (FileTree.writeOutput_eq_ok_iff hnames hstart _).2 hobstructed
    rw [FileTree.writeStats, hafter] at hcause
    cases hcause
  · intro hobstructed
    obtain ⟨cause, left, herror⟩ := FileTree.error_of_obstructed hobstructed _
    exact ⟨path, cause, rfl, congrArg Prod.fst herror⟩

theorem finish_outcome (progress : Progress μ) (tools : Tools μ) (report : Option Path) :
    ¬progress.StatsFailed tools report ∧
        (progress.finish tools report).1 = .ok progress.summary ∨
      progress.StatsFailed tools report ∧
        ∃ cause, (progress.finish tools report).1 = .error (.stats cause) := by
  cases report with
  | none =>
    left
    refine ⟨?_, rfl⟩
    rintro ⟨path, cause, hreport, -⟩
    cases hreport
  | some path =>
    obtain ⟨outcome, tree, hwritten⟩ : ∃ outcome tree,
        progress.tree.writeStats tools.time path progress.summary.reports = (outcome, tree) :=
      ⟨_, _, rfl⟩
    rw [finish, writeReports, hwritten]
    cases outcome with
    | error cause => exact Or.inr ⟨⟨path, cause, rfl, by rw [hwritten]⟩, cause, rfl⟩
    | ok u =>
      left
      refine ⟨?_, rfl⟩
      rintro ⟨other, cause, hreport, hcause⟩
      cases hreport
      rw [hwritten] at hcause
      cases hcause

theorem finish_eq_error_iff {progress : Progress μ} {tools : Tools μ} {report : Option Path} :
    (∃ cause, (progress.finish tools report).1 = .error cause) ↔
      progress.StatsFailed tools report := by
  rcases progress.finish_outcome tools report with ⟨hstats, hok⟩ | ⟨hstats, cause, herror⟩
  · simp [hok, hstats]
  · exact iff_of_true ⟨_, herror⟩ hstats

theorem summary_of_finish {progress : Progress μ} {tools : Tools μ} {report : Option Path}
    {summary : Summary} (h : (progress.finish tools report).1 = .ok summary) :
    summary = progress.summary := by
  rcases progress.finish_outcome tools report with ⟨-, hok⟩ | ⟨-, cause, herror⟩
  · rw [hok] at h
    exact (Except.ok.inj h).symm
  · rw [herror] at h
    cases h

end Progress

/-- A command stops for one of the reasons to refuse it, or because statistics that are asked for
cannot be written, and for nothing else. When it is refused it prints nothing, leaves every file
and what the renderer keeps as they were, and answers the same whatever the renderer does. -/
theorem fatal_iff (tools : Tools μ) (tree : FileTree) (memory : μ) :
    (∀ args : CompareArgs,
      ((∃ cause, (compareTraces tools args tree memory).1 = .error cause) ↔
        args.Refused ∨ (args.drawn tools tree memory).StatsFailed tools args.report) ∧
      (args.Refused → ∃ cause, ∀ renderer : Renderer μ,
        compareTraces { tools with renderer } args tree memory =
          (.error cause, { tree, memory }))) ∧
    ∀ args : AnalyzeArgs,
      ((∃ cause, (analyzeTrace tools args tree memory).1 = .error cause) ↔
        args.Refused tree ∨ (args.drawn tools tree memory).StatsFailed tools args.report) ∧
      (args.Refused tree → ∃ cause, ∀ renderer : Renderer μ,
        analyzeTrace { tools with renderer } args tree memory =
          (.error cause, { tree, memory })) := by
  refine ⟨fun args => ⟨?_, ?_⟩, fun args => ⟨?_, ?_⟩⟩
  · by_cases h : args.Refused
    · obtain ⟨cause, hcause⟩ := CompareArgs.compareTraces_of_refused h
      rw [hcause]
      exact iff_of_true ⟨cause, rfl⟩ (Or.inl h)
    · rw [CompareArgs.compareTraces_of_not_refused h, Progress.finish_eq_error_iff, or_iff_right h]
  · intro h
    obtain ⟨cause, hcause⟩ := CompareArgs.compareTraces_of_refused h
    exact ⟨cause, fun renderer => hcause _ tree memory⟩
  · by_cases h : args.Refused tree
    · obtain ⟨cause, hcause⟩ := AnalyzeArgs.analyzeTrace_of_refused h
      rw [hcause]
      exact iff_of_true ⟨cause, rfl⟩ (Or.inl h)
    · rw [AnalyzeArgs.analyzeTrace_of_not_refused h, Progress.finish_eq_error_iff, or_iff_right h]
  · intro h
    obtain ⟨cause, hcause⟩ := AnalyzeArgs.analyzeTrace_of_refused h
    exact ⟨cause, fun renderer => hcause _ memory⟩

end HeapLatency
