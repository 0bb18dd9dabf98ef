import HeapLatency.Proofs.Chart.Counts
import HeapLatency.Proofs.Command.ChartFiles
import HeapLatency.Proofs.Command.Endings
import HeapLatency.Proofs.Text.Encoding

/-!
# Traces that last

What a command leaves of the traces that it was given. Charts replace files of the same name, they
are drawn while other traces are still to be read, and they are named after traces. So a trace may
be lost to a chart, but never to one of its own: the name of such a chart is longer than that of
the trace.
-/

namespace HeapLatency

variable {μ : Type}

/-! ## Places -/

namespace FileTree

/-- Two paths lead to the same place. -/
def SameFile (tree : FileTree) (path other : Path) : Prop :=
  ∃ location, tree.resolve path = .ok location ∧ tree.resolve other = .ok location

/-- The statistics, where they are asked for, are at the place of another file. -/
def ReportedOver (tree : FileTree) (report : Option Path) (path : Path) : Prop :=
  ∃ place, report = some place ∧ tree.SameFile place path

variable {before after : FileTree} {path other : Path}

theorem Keeps.sameFile {touched : Location → Prop} (h : Keeps touched before after)
    (hsame : before.SameFile path other) : after.SameFile path other := by
  obtain ⟨location, hpath, hother⟩ := hsame
  exact ⟨location, h.resolve hpath, h.resolve hother⟩

theorem SameFile.fileName?_eq (h : before.SameFile path other) (hfile : before.IsFile other) :
    path.fileName? = other.fileName? := by
  obtain ⟨location, hpath, hother⟩ := h
  obtain ⟨content, hread⟩ := hfile
  obtain ⟨place, hplace, hcontent⟩ := read_eq_ok_iff.1 hread
  obtain rfl : location = place := Except.ok.inj (hother.symm.trans hplace)
  obtain ⟨name, hname, hlast⟩ := exists_name_of_file hpath hcontent
  obtain ⟨otherName, hotherName, hotherLast⟩ := exists_name_of_file hother hcontent
  rw [hname, hotherName, ← hlast, ← hotherLast]

theorem Keeps.read_or_touched {touched : Location → Prop} {content : Bytes}
    (h : Keeps touched before after) (hread : before.read path = .ok content) :
    after.read path = .ok content ∨
      ∃ location, touched location ∧ after.resolve path = .ok location := by
  obtain ⟨location, hresolve, hfile⟩ := read_eq_ok_iff.1 hread
  by_cases htouched : touched location
  · exact Or.inr ⟨location, htouched, h.resolve hresolve⟩
  · exact Or.inl (read_eq_ok_iff.2 ⟨location, h.resolve hresolve, h.fileAt? htouched hfile⟩)

end FileTree

/-! ## Names -/

/-- A path whose file name ends like those of charts. -/
def ChartFormat.Names (format : ChartFormat) (path : Path) : Prop :=
  ∃ name, path.fileName? = some name ∧ bytesOf ("." ++ format.name) <:+ name

namespace Chart

variable {directory : Path} {format : ChartFormat} {chart : Chart}

theorem names_path (directory : Path) (format : ChartFormat) (chart : Chart) :
    format.Names (chart.path directory format) := by
  have hname : bytesOf ("." ++ format.name) <:+ chart.fileName format := by
    rw [fileName, String.append_assoc, bytesOf_append chart.stem]
    exact List.suffix_append _ _
  have hpath : chart.fileName format <:+ (chart.path directory format).bytes := by
    rw [path_eq_join]
    exact Path.suffix_join directory ⟨chart.fileName format⟩
  refine Path.exists_fileName?_of_suffix ?_ ?_ (hname.trans hpath)
  · cases format <;> decide
  · cases format <;> decide

theorem length_le_of_mem_traceStems {name stem : String} (h : stem ∈ traceStems name) :
    name.length ≤ stem.length := by
  rcases mem_traceStems.1 h with hlatency | rfl
  · obtain ⟨operation, rfl⟩ := exists_of_mem_latencyStems hlatency
    simp only [latencyStem, String.length_append]
    omega
  · exact Nat.le_refl _

theorem fileName?_path_ne {trace : Path} {name : Bytes} (hname : trace.fileName? = some name)
    (hstem : chart.stem ∈ traceStems trace.displayName) :
    (chart.path directory format).fileName? ≠ trace.fileName? := by
  have hslash : '/' ∉ chart.stem.toList :=
    slash_not_mem_traceStems (Path.slash_not_mem_displayName hname) _ hstem
  intro hsame
  rw [path_eq_join, Path.fileName?_join (isName_fileName hslash), hname] at hsame
  have hshown : trace.displayName = chart.stem ++ "." ++ format.name := by
    rw [Path.displayName, hname]
    dsimp only
    rw [← Option.some.inj hsame, fileName, bytesOf, Utf8.decodeLenient_encode, String.ofList_toList]
  have hle := length_le_of_mem_traceStems hstem
  have hdot : ".".length = 1 := rfl
  rw [hshown, String.length_append, String.length_append] at hle
  omega

/-- The stems of the charts of traces that are shown by other names than one of them. -/
def foreignStems (traces : List LabeledPath) (trace : LabeledPath) : List String :=
  (traces.filter fun other => other.path.displayName ≠ trace.path.displayName).flatMap
    fun other => traceStems other.path.displayName

theorem mem_foreignStems {traces : List LabeledPath} {trace other : LabeledPath} {name : Bytes}
    (hname : trace.path.fileName? = some name) (hother : other ∈ traces)
    (hstem : chart.stem ∈ traceStems other.path.displayName)
    (hsame : (chart.path directory format).fileName? = trace.path.fileName?) :
    chart.stem ∈ foreignStems traces trace := by
  have hne : other.path.displayName ≠ trace.path.displayName := by
    intro heq
    rw [heq] at hstem
    exact fileName?_path_ne hname hstem hsame
  exact List.mem_flatMap.2 ⟨other, List.mem_filter.2 ⟨hother, decide_eq_true hne⟩, hstem⟩

end Chart

/-! ## Runs -/

namespace Step

/-- Charts are at a location. -/
def At (charts : List (Chart × Path)) (tree : FileTree) (location : Location) : Prop :=
  ∃ chart path, (chart, path) ∈ charts ∧ tree.resolve path = .ok location

variable {scale : LogScale} {canvas : Canvas} {format : ChartFormat} {directory : Path}

theorem keeps_at (steps : List Step) (state : FileTree × μ) :
    FileTree.Keeps
      (At (written steps (performAll (.toFiles scale canvas format directory) steps state).1)
        (performAll (.toFiles scale canvas format directory) steps state).2.1)
      state.1 (performAll (.toFiles scale canvas format directory) steps state).2.1 := by
  induction steps generalizing state with
  | nil => exact .refl _ state.1
  | cons step steps ih =>
    obtain ⟨tree, memory⟩ := state
    rw [performAll]
    rcases perform_toFiles scale canvas format directory step tree memory with
      ⟨failure, left, hperform, hkeeps⟩ |
        ⟨chart, text, location, after, hbuilt, -, -, hperform, hwritten⟩
    · rw [hperform, written_cons_error]
      exact hkeeps.of_nowhere.trans (ih (left, memory))
    · rw [hperform, written_cons_ok hbuilt]
      have hrest := ih (after, memory)
      refine (hwritten.keeps.mono ?_).trans (hrest.mono ?_)
      · rintro other rfl
        exact ⟨chart, _, List.mem_cons_self, hrest.resolve hwritten.resolve⟩
      · rintro other ⟨later, path, hmem, hresolve⟩
        exact ⟨later, path, List.mem_cons_of_mem _ hmem, hresolve⟩

theorem mem_written_append {renderer : Renderer μ} {first second : List Step}
    {state : FileTree × μ} {entry : Chart × Path}
    (h : entry ∈ written first (performAll renderer first state).1) :
    entry ∈ written (first ++ second) (performAll renderer (first ++ second) state).1 := by
  have hlength : first.length = (performAll renderer first state).1.length :=
    (gives_performAll first state).length_eq
  rw [performAll_append, written, List.zip_append hlength, List.filterMap_append]
  exact List.mem_append_left _ h

end Step

namespace Progress

variable {tools : Tools μ}

theorem stepsOf_append (config : Config) (first second : List LabeledPath)
    (progress : Progress μ) : stepsOf tools config (first ++ second) progress =
      stepsOf tools config first progress ++
        stepsOf tools config second (progress.processTraces tools config first).2 := by
  induction first generalizing progress with
  | nil => rfl
  | cons trace first ih =>
    rw [List.cons_append, stepsOf, ih, stepsOf, List.append_assoc,
      processTraces_cons config trace first]

theorem keeps_finish (tools : Tools μ) (progress : Progress μ) (report : Option Path) :
    FileTree.Keeps
      (fun location => ∃ place, report = some place ∧
        (progress.finish tools report).2.tree.resolve place = .ok location)
      progress.tree (progress.finish tools report).2.tree := by
  cases report with
  | none => exact .refl _ progress.tree
  | some path =>
    rw [finish, writeReports, FileTree.writeStats]
    rcases progress.tree.writeOutput_outcome path
        (bytesOf (StatsDocument.ofReports tools.time progress.summary.reports).toJson.pretty) with
      ⟨cause, left, hwrite, hkeeps⟩ | ⟨location, after, hwrite, hwritten⟩
    · simp only [hwrite]
      exact hkeeps.of_nowhere
    · simp only [hwrite]
      refine hwritten.keeps.mono ?_
      rintro other rfl
      exact ⟨path, rfl, hwritten.resolve⟩

section Files

variable {scale : LogScale} {canvas : Canvas} {format : ChartFormat} {directory path : Path}
  {steps : List Step} {reports : List Report} {start progress : Progress μ} {content : Bytes}

theorem Advance.read (hfiles : tools.renderer = .toFiles scale canvas format directory)
    (h : Advance tools.renderer steps reports start progress)
    (hread : start.tree.read path = .ok content) :
    progress.tree.IsFile path ∧ (progress.tree.read path = .ok content ∨
      ∃ chart place, (chart, place) ∈
          Step.written steps (Step.performAll tools.renderer steps start.state).1 ∧
        progress.tree.SameFile place path) := by
  have hstate : progress.tree = (Step.performAll tools.renderer steps start.state).2.1 :=
    congrArg Prod.fst h.state
  have hkeeps : FileTree.Keeps
      (Step.At (Step.written steps (Step.performAll tools.renderer steps start.state).1)
        progress.tree) start.tree progress.tree := by
    rw [hstate, hfiles]
    exact Step.keeps_at steps start.state
  refine ⟨hkeeps.isFile ⟨content, hread⟩, ?_⟩
  rcases hkeeps.read_or_touched hread with hkept | ⟨location, ⟨chart, place, hmem, hplace⟩, hpath⟩
  · exact Or.inl hkept
  · exact Or.inr ⟨chart, place, hmem, location, hplace, hpath⟩

theorem Advance.read_finish (hfiles : tools.renderer = .toFiles scale canvas format directory)
    (h : Advance tools.renderer steps reports start progress) (report : Option Path)
    (hread : start.tree.read path = .ok content) :
    (progress.finish tools report).2.tree.IsFile path ∧
    ((progress.finish tools report).2.tree.read path = .ok content ∨
      (progress.finish tools report).2.tree.ReportedOver report path ∨
      ∃ chart place, (chart, place) ∈
          Step.written steps (Step.performAll tools.renderer steps start.state).1 ∧
        (progress.finish tools report).2.tree.SameFile place path) := by
  obtain ⟨hfile, hdrawn⟩ := h.read hfiles hread
  have hkeeps := keeps_finish tools progress report
  refine ⟨hkeeps.isFile hfile, ?_⟩
  rcases hdrawn with hkept | ⟨chart, place, hmem, hsame⟩
  · rcases hkeeps.read_or_touched hkept with hlast | ⟨location, ⟨place, hplace, hlocation⟩, hpath⟩
    · exact Or.inl hlast
    · exact Or.inr (Or.inl ⟨place, hplace, location, hlocation, hpath⟩)
  · exact Or.inr (Or.inr ⟨chart, place, hmem, hkeeps.sameFile hsame⟩)

end Files

end Progress

/-! ## Commands -/

section Commands

variable {tools : Tools μ} {scale : LogScale} {canvas : Canvas} {format : ChartFormat}
  {directory : Path} {tree : FileTree} {memory : μ} {content : Bytes}

theorem AnalyzeArgs.read_trace (hfiles : tools.renderer = .toFiles scale canvas format directory)
    {args : AnalyzeArgs} (hread : tree.read args.trace = .ok content) :
    (analyzeTrace tools args tree memory).2.tree.read args.trace = .ok content ∨
      (analyzeTrace tools args tree memory).2.tree.ReportedOver args.report args.trace := by
  by_cases hrefused : args.Refused tree
  · obtain ⟨cause, hcause⟩ := analyzeTrace_of_refused hrefused
    rw [hcause]
    exact Or.inl hread
  rw [analyzeTrace_of_not_refused hrefused]
  obtain ⟨reports, hadvance⟩ := args.advance_run tools tree memory
  obtain ⟨hfile, hkept | hover | ⟨chart, path, hmem, hsame⟩⟩ :=
    hadvance.read_finish hfiles args.report hread
  · exact Or.inl hkept
  · exact Or.inr hover
  · exfalso
    obtain ⟨hstem, name, hname⟩ := mem_traceStems (Step.mem_stems_of_mem_written hmem)
    rw [hfiles] at hmem
    obtain rfl := Step.path_of_mem_written hmem
    exact Chart.fileName?_path_ne hname hstem (hsame.fileName?_eq hfile)

namespace CompareArgs

/-- A chart that a comparison has written, with one of some stems, is in the place of a trace. -/
def DrawnOver (args : CompareArgs) (tools : Tools μ) (tree : FileTree) (memory : μ)
    (later : FileTree) (trace : LabeledPath) (stems : List String) : Prop :=
  ∃ chart path, (chart, path) ∈ args.written tools tree memory ∧ chart.stem ∈ stems ∧
    later.SameFile path trace.path

/-- The stems of the charts of a comparison, but those of one trace. -/
def otherStems (args : CompareArgs) (tools : Tools μ) (tree : FileTree) (memory : μ)
    (trace : LabeledPath) : List String :=
  Chart.foreignStems args.traces trace ++
    Chart.comparisonStems (.ofFirst args.traces) ((args.parsed tools tree memory).map (·.1))

/-- How far a comparison is when it has worked through some of its traces. -/
def reached (args : CompareArgs) (tools : Tools μ) (tree : FileTree) (memory : μ)
    (before : List LabeledPath) : Progress μ :=
  (({ tree, memory } : Progress μ).processTraces tools args.config before).2

variable {args : CompareArgs} {before after : List LabeledPath} {trace : LabeledPath}

theorem sameName_of_sameFile (hfiles : tools.renderer = .toFiles scale canvas format directory)
    {chart : Chart} {path other : Path} {later : FileTree}
    (hmem : (chart, path) ∈ args.written tools tree memory) (hsame : later.SameFile path other)
    (hfile : later.IsFile other) :
    (chart.path directory format).fileName? = other.fileName? ∧ format.Names other := by
  rw [written, hfiles] at hmem
  obtain rfl := Step.path_of_mem_written hmem
  have hname := hsame.fileName?_eq hfile
  obtain ⟨name, hchart, hending⟩ := Chart.names_path directory format chart
  exact ⟨hname, name, hname.symm.trans hchart, hending⟩

/-- When its turn comes a trace is as it was, unless a chart of an earlier one is in its place. -/
theorem read_reached (hfiles : tools.renderer = .toFiles scale canvas format directory)
    (htraces : args.traces = before ++ trace :: after)
    (hread : tree.read trace.path = .ok content) :
    (args.reached tools tree memory before).tree.read trace.path = .ok content ∨
      format.Names trace.path ∧
        args.DrawnOver tools tree memory (args.reached tools tree memory before).tree trace
          (Chart.foreignStems before trace) := by
  have hadvance : Progress.Advance tools.renderer _ _ ({ tree, memory } : Progress μ)
      (args.reached tools tree memory before) :=
    Progress.advance_stepsOf args.config before { tree, memory }
  obtain ⟨hfile, hkept | ⟨chart, path, hmem, hsame⟩⟩ := hadvance.read hfiles hread
  · exact Or.inl hkept
  right
  obtain ⟨name, hname⟩ := FileTree.exists_fileName?_of_read hread
  obtain ⟨other, hother, hstem⟩ :=
    Step.exists_given_of_mem_stems (Step.mem_stems_of_mem_written hmem)
  have hwritten : (chart, path) ∈ args.written tools tree memory := by
    rw [written, run, htraces, Progress.stepsOf_append, List.append_assoc]
    exact Step.mem_written_append hmem
  obtain ⟨hchart, hnames⟩ := sameName_of_sameFile hfiles hwritten hsame hfile
  exact ⟨hnames, chart, path, hwritten, Chart.mem_foreignStems hname hother hstem hchart, hsame⟩

theorem processTraces_reached (h : (args.reached tools tree memory before).tree.read trace.path =
      tree.read trace.path) :
    ((args.reached tools tree memory before).processTraces tools args.config [trace]).1 =
      tree.parsedTraces args.config [trace] := by
  refine (Progress.advance_processTraces_singleton ?_).1
  rw [FileTree.readTrace, h, FileTree.readTrace]

/-- When a comparison has ended a trace is as it was, unless a chart that is not its own, or the
statistics, are in its place. -/
theorem read_ended (hfiles : tools.renderer = .toFiles scale canvas format directory)
    (hread : tree.read trace.path = .ok content) :
    (compareTraces tools args tree memory).2.tree.read trace.path = .ok content ∨
      (compareTraces tools args tree memory).2.tree.ReportedOver args.report trace.path ∨
      format.Names trace.path ∧
        args.DrawnOver tools tree memory (compareTraces tools args tree memory).2.tree trace
          (args.otherStems tools tree memory trace) := by
  by_cases hrefused : args.Refused
  · obtain ⟨cause, hcause⟩ := compareTraces_of_refused hrefused
    rw [hcause]
    exact Or.inl hread
  rw [compareTraces_of_not_refused hrefused]
  obtain ⟨reports, hadvance⟩ := args.advance_run tools tree memory
  obtain ⟨hfile, hkept | hover | ⟨chart, path, hmem, hsame⟩⟩ :=
    hadvance.read_finish hfiles args.report hread
  · exact Or.inl hkept
  · exact Or.inr (Or.inl hover)
  right; right
  obtain ⟨hchart, hnames⟩ := sameName_of_sameFile hfiles hmem hsame hfile
  refine ⟨hnames, chart, path, hmem, ?_, hsame⟩
  have hstem := Step.mem_stems_of_mem_written hmem
  rw [run, Step.stems_append] at hstem
  rcases List.mem_append.1 hstem with hdrawn | hcompared
  · obtain ⟨name, hname⟩ := FileTree.exists_fileName?_of_read hread
    obtain ⟨other, hother, hstem⟩ := Step.exists_given_of_mem_stems hdrawn
    exact List.mem_append_left _ (Chart.mem_foreignStems hname hother hstem hchart)
  · exact List.mem_append_right _ ((Step.stems_comparisonSteps _ _ _ _).subset hcompared)

end CompareArgs

end Commands

/-- Traces that can be read outlast a command, however it ends. An analysis leaves its trace as it
was. In a comparison each trace is as it was when its turn comes, and what is parsed of it then is
what it held at first, and it is as it was in the end. Only a trace that is named like a chart can
be lost: to one of another trace with another name, or to one across traces, that is drawn right in
its place. The statistics may be told to replace a trace as well. -/
theorem traces_last {tools : Tools μ} {scale : LogScale} {canvas : Canvas} {format : ChartFormat}
    {directory : Path} (hfiles : tools.renderer = .toFiles scale canvas format directory)
    (tree : FileTree) (memory : μ) :
    (∀ (args : AnalyzeArgs) (content : Bytes), tree.read args.trace = .ok content →
      let final := (analyzeTrace tools args tree memory).2.tree
      final.read args.trace = .ok content ∨ final.ReportedOver args.report args.trace) ∧
    ∀ (args : CompareArgs) (before after : List LabeledPath) (trace : LabeledPath)
      (content : Bytes), args.traces = before ++ trace :: after →
      tree.read trace.path = .ok content →
      let turn := args.reached tools tree memory before
      let final := (compareTraces tools args tree memory).2.tree
      (turn.tree.read trace.path = .ok content ∧
          (turn.processTraces tools args.config [trace]).1 =
            tree.parsedTraces args.config [trace] ∨
        format.Names trace.path ∧
          args.DrawnOver tools tree memory turn.tree trace (Chart.foreignStems before trace)) ∧
      (final.read trace.path = .ok content ∨ final.ReportedOver args.report trace.path ∨
        format.Names trace.path ∧
          args.DrawnOver tools tree memory final trace
            (args.otherStems tools tree memory trace)) := by
  refine ⟨fun args content hread => args.read_trace hfiles hread,
    fun args before after trace content htraces hread => ⟨?_, ?_⟩⟩
  · refine (CompareArgs.read_reached hfiles htraces hread).imp_left fun hkept => ⟨hkept, ?_⟩
    exact CompareArgs.processTraces_reached (hkept.trans hread.symm)
  · exact CompareArgs.read_ended hfiles hread

theorem traces_last_sample :
    ∃ first second,
      sampleTree.read (.ofText "run_a.csv") = .ok first ∧
      sampleTree.read (.ofText "run_b.csv") = .ok second ∧
      (∃ summary final, analyzeTrace fileTools sampleAnalysis sampleTree () = (.ok summary, final) ∧
        summary.charts.length = 3 ∧ final.tree.read (.ofText "run_a.csv") = .ok first) ∧
      ∃ summary final, compareTraces fileTools sampleComparison sampleTree () =
          (.ok summary, final) ∧ summary.charts.length = 8 ∧
        (sampleComparison.reached fileTools sampleTree ()
          (sampleComparison.traces.take 2)).tree.read (.ofText "run_b.csv") = .ok second ∧
        final.tree.read (.ofText "run_b.csv") = .ok second := by
  obtain ⟨first, hfirst⟩ := exists_of_isOk
    (show (sampleTree.read (.ofText "run_a.csv")).isOk = true by decide +kernel)
  obtain ⟨second, hsecond⟩ := exists_of_isOk
    (show (sampleTree.read (.ofText "run_b.csv")).isOk = true by decide +kernel)
  obtain ⟨others, last, hothers, hthree⟩ := exists_of_map_toOption
    (show (analyzeTrace fileTools sampleAnalysis sampleTree ()).1.toOption.map
      (·.charts.length) = some 3 by decide +kernel)
  obtain ⟨summary, final, hsummary, height⟩ := exists_of_map_toOption
    (show (compareTraces fileTools sampleComparison sampleTree ()).1.toOption.map
      (·.charts.length) = some 8 by decide +kernel)
  obtain ⟨hanalysis, hcomparison⟩ :=
    traces_last (show fileTools.renderer = .toFiles ⟨id, id⟩ {} .json (.ofText "out") from rfl)
      sampleTree ()
  have hplain : ¬ChartFormat.json.Names (.ofText "run_b.csv") := by
    rintro ⟨name, hname, hending⟩
    have hname' : (Path.ofText "run_b.csv").fileName? = some (bytesOf "run_b.csv") := by decide
    obtain rfl := Option.some.inj (hname'.symm.trans hname)
    exact absurd hending (by decide)
  have hlast := hanalysis sampleAnalysis first hfirst
  rw [hothers] at hlast
  obtain ⟨hturn, hend⟩ := hcomparison sampleComparison (sampleComparison.traces.take 2) []
    ⟨"b", .ofText "run_b.csv"⟩ second rfl hsecond
  rw [hsummary] at hend
  refine ⟨first, second, hfirst, hsecond, ⟨others, last, hothers, hthree, ?_⟩,
    summary, final, hsummary, height, ?_, ?_⟩
  · refine hlast.resolve_right ?_
    rintro ⟨report, hreport, -⟩
    cases hreport
  · exact (hturn.resolve_right fun h => hplain h.1).1
  · refine (hend.resolve_right ?_)
    rintro (⟨report, hreport, -⟩ | ⟨hnames, -⟩)
    · cases hreport
    · exact hplain hnames

/-- A trace in the directory of the charts, named like the chart of another one. -/
def coveredTree : FileTree where
  entries := [
    (bytesOf "out", .directory
      [(bytesOf "run_a", .file (bytesOf "#\n#\nmalloc,1048576,1,500\nfree,1048576,1,300")),
        (bytesOf "run_a.json", .file (bytesOf "#\n#\nmalloc,1048576,1,700\nfree,1048576,1,900"))])]

def coveredComparison : CompareArgs where
  traces := Cli.labeledTraces (some (.ofText "out/run_a.json")) none (some (.ofText "out/run_a"))
  config := sampleComparison.config

theorem Json.exists_rest_of_record (fields : List (String × Json)) :
    ∃ rest, (Json.record fields).pretty = openBrace ++ rest := by
  rw [pretty, layout, block]
  split
  · exact ⟨closeBrace, rfl⟩
  · simp only [String.append_assoc]
    exact ⟨_, rfl⟩

theorem ChartFormat.head?_bytesOf_json {scale : LogScale} {canvas : Canvas} {chart : Chart}
    {text : String} (h : ChartFormat.json.content scale canvas chart = .ok text) :
    (bytesOf text).head? = (bytesOf Json.openBrace).head? := by
  obtain ⟨json, hjson, rfl⟩ := map_eq_ok.1 h
  obtain ⟨-, -, counts, -, rfl⟩ := Chart.toJson_eq_ok_iff.1 hjson
  obtain ⟨rest, hrest⟩ := Json.exists_rest_of_record _
  rw [hrest, bytesOf_append]
  rfl

/-- The chart of the second trace is drawn over the first one. -/
theorem trace_overwritten :
    Path.ofText "out/run_a.json" ∈ coveredComparison.traces.map (·.path) ∧
    coveredComparison.report = none ∧
    ∃ content text, coveredTree.read (.ofText "out/run_a.json") = .ok content ∧ text ≠ content ∧
      ∃ summary final, compareTraces fileTools coveredComparison coveredTree () =
          (.ok summary, final) ∧
        final.tree.read (.ofText "out/run_a.json") = .ok text := by
  obtain ⟨summary, final, hsummary, -⟩ := exists_of_map_toOption
    (show (compareTraces fileTools coveredComparison coveredTree ()).1.toOption.map
      (·.charts.length) = some 8 by decide +kernel)
  obtain ⟨content, hcontent, hhead⟩ := exists_of_toOption_map
    (show (coveredTree.read (.ofText "out/run_a.json")).toOption.map List.head? =
      some (some 0x23) by decide +kernel)
  have hparsed : (coveredComparison.parsed fileTools coveredTree ()).map
      (fun parsed => (parsed.1, parsed.2.name)) =
        [("tlsf", "run_a.json"), ("native", "run_a")] := by decide +kernel
  obtain ⟨hlabels, hnames⟩ := CompareArgs.map_parsed hparsed
  have hapart : coveredComparison.NamesApart fileTools coveredTree () := by
    rw [CompareArgs.NamesApart, hlabels, hnames]
    exact ⟨by decide, by decide, by decide⟩
  obtain ⟨⟨chart, path⟩, hmem, rfl⟩ := List.mem_map.1 (List.contains_iff_mem.1
    (show ((coveredComparison.written fileTools coveredTree ()).map (·.2)).contains
      (.ofText "out/run_a.json") = true by decide +kernel))
  obtain ⟨-, hfinish⟩ := CompareArgs.finish_of_ok hsummary
  obtain ⟨reports, hadvance⟩ := coveredComparison.advance_run fileTools coveredTree ()
  have hslash : ∀ stem ∈ Step.stems (coveredComparison.run fileTools coveredTree ()),
      '/' ∉ stem.toList :=
    CompareArgs.slash_not_mem_stems (by rw [hlabels]; decide) fun _ => by decide
  obtain ⟨text, htext, hread⟩ := CompareArgs.read_of_mem_written
    (show fileTools.renderer = .toFiles ⟨id, id⟩ {} .json (.ofText "out") from rfl) hapart hslash
    hadvance.state hfinish hmem
  refine ⟨by decide, rfl, content, bytesOf text, hcontent, ?_, summary, final, hsummary,
    hread.resolve_right ?_⟩
  · rintro rfl
    rw [ChartFormat.head?_bytesOf_json htext] at hhead
    exact absurd hhead (by decide)
  · rintro ⟨report, _, hreport, -⟩
    cases hreport

end HeapLatency
