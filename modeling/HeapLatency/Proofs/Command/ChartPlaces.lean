import HeapLatency.Cli.Run
import HeapLatency.Proofs.Command.Rendering
import HeapLatency.Proofs.RunTokens

/-!
# Where charts go

The charts of a command are files of the directory that they are drawn into. Their names come
from the file names of traces that were read. The one exception is a run token that no trace with
a file name vouches for: the token of a first trace that is left out, with two more to compare.
-/

namespace HeapLatency

variable {μ : Type}

/-- A file is found right in a directory, under a name of its own. -/
structure FileTree.FoundIn (tree : FileTree) (directory path : Path) (name : Bytes)
    (above : Location) : Prop where
  isName : Path.IsName name
  path_eq : path = directory.join ⟨name⟩
  fileName : path.fileName? = some name
  components : path.components = directory.components ++ [name]
  isAbsolute : path.isAbsolute = directory.isAbsolute
  resolve : tree.resolve path = .ok (above ++ [name])
  resolve_directory : directory.isEmpty = false → tree.resolve directory = .ok above

theorem FileTree.foundIn_of_resolve {tree : FileTree} {directory : Path} {name : Bytes}
    {location : Location} (hname : Path.IsName name)
    (h : tree.resolve (directory.join ⟨name⟩) = .ok location) :
    ∃ above, tree.FoundIn directory (directory.join ⟨name⟩) name above := by
  obtain ⟨above, rfl, hdirectory⟩ := resolve_join hname h
  exact ⟨above, hname, rfl, Path.fileName?_join hname,
    Path.components_join hname.nonempty hname.noSlash, Path.isAbsolute_join hname.noSlash, h,
    hdirectory⟩

section Run

variable {tools : Tools μ} {scale : LogScale} {canvas : Canvas} {format : ChartFormat}
  {directory : Path}

theorem Progress.Advance.map_snd_written {steps : List Step} {reports : List Report}
    {start progress : Progress μ}
    (h : Advance tools.renderer steps reports start progress)
    (hstart : start.summary.charts = []) :
    (Step.written steps (Step.performAll tools.renderer steps start.state).1).map (·.2) =
      progress.summary.charts := by
  rw [Step.map_snd_written (Step.gives_performAll steps start.state), h.charts, hstart,
    List.nil_append]

theorem Progress.foundIn_of_finish
    (hfiles : tools.renderer = .toFiles scale canvas format directory)
    {steps : List Step} {reports : List Report} {start progress final : Progress μ}
    {report : Option Path} {summary : Summary}
    (hadvance : Advance tools.renderer steps reports start progress)
    (hstart : start.summary.charts = [])
    (hslash : ∀ stem ∈ Step.stems steps, '/' ∉ stem.toList)
    (hfinish : progress.finish tools report = (.ok summary, final)) :
    ∀ path ∈ summary.charts, ∃ name above, final.tree.FoundIn directory path name above := by
  have hstate : progress.tree = (Step.performAll tools.renderer steps start.state).2.1 :=
    congrArg Prod.fst hadvance.state
  have hcharts := hadvance.map_snd_written hstart
  have hsummary : summary = progress.summary := Progress.summary_of_finish (by rw [hfinish])
  intro path hpath
  rw [hsummary, ← hcharts] at hpath
  rw [hfiles] at hpath hstate
  obtain ⟨⟨chart, _⟩, hmem, rfl⟩ := List.mem_map.1 hpath
  have hstem : chart.stem ∈ Step.stems steps := Step.mem_stems_of_mem_written hmem
  obtain rfl := Step.path_of_mem_written hmem
  obtain ⟨text, location, mid, first, later, -, -, hleads, -, hkeeps⟩ :=
    Step.exists_moment hslash hmem
  have hdrawn : progress.tree.resolve (chart.path directory format) = .ok location := by
    rw [hstate]
    exact hkeeps.resolve hleads.resolve
  have hfinal : final.tree.resolve (chart.path directory format) = .ok location := by
    rcases Progress.tree_of_finish hfinish with ⟨-, htree⟩ | ⟨_, _, -, hwritten⟩
    · rw [htree]
      exact hdrawn
    · exact hwritten.keeps.resolve hdrawn
  obtain ⟨above, hfound⟩ :=
    FileTree.foundIn_of_resolve (Chart.isName_fileName (hslash _ hstem)) hfinal
  exact ⟨_, above, hfound⟩

end Run

/-! ## Run tokens -/

theorem RunToken.slash_not_mem_ofPath {path : Path} {name : Bytes}
    (h : path.fileName? = some name) : '/' ∉ (ofPath path).text.toList := by
  intro hslash
  rw [ofPath_eq, ofName, String.toList_ofList] at hslash
  exact Path.slash_not_mem_displayName h (List.takeWhile_subset _ hslash)

theorem Progress.exists_fileName?_of_two {tools : Tools μ} {config : Config}
    {progress : Progress μ} {first second : LabeledPath}
    (h : 2 ≤ (progress.processTraces tools config [first, second]).1.length) :
    ∃ name, first.path.fileName? = some name := by
  have hsecond := length_processTraces_le tools config [second]
    (progress.processTraces tools config [first]).2
  rw [processTraces_cons, List.length_append] at h
  rw [List.length_singleton] at hsecond
  have hfirst : 0 < (progress.processTraces tools config [first]).1.length := by omega
  obtain ⟨given, hgiven, -, -, hname⟩ := exists_given_of_mem (List.getElem_mem hfirst)
  rwa [List.mem_singleton.1 hgiven] at hname

namespace CompareArgs

variable {args : CompareArgs} {tools : Tools μ} {tree : FileTree} {memory : μ}

/-- The same-run check is off, and the token of the first of three traces leads elsewhere. -/
def StrayToken (args : CompareArgs) : Prop :=
  args.sameRun = some false ∧ args.traces.length = 3 ∧
    '/' ∈ (RunToken.ofFirst args.traces).text.toList

theorem slash_not_mem_token (hrefused : ¬args.Refused)
    (htwo : 2 ≤ (args.parsed tools tree memory).length) (hstray : ¬args.StrayToken) :
    '/' ∉ (RunToken.ofFirst args.traces).text.toList := by
  intro hslash
  have hcount : args.traces.length = 2 ∨ args.traces.length = 3 := by
    apply Decidable.byContradiction
    intro hcount
    exact hrefused (.traceCount hcount)
  by_cases hasked : args.SameRunAsked
  · -- all tokens agree, and a trace that was read has one without a slash
    have hone : 0 < (args.parsed tools tree memory).length := by omega
    obtain ⟨given, hgiven, -, -, name, hname⟩ :=
      Progress.exists_given_of_mem (List.getElem_mem hone)
    cases htraces : args.traces with
    | nil =>
      rw [htraces] at hgiven
      cases hgiven
    | cons first rest =>
      have hfirst : first ∈ args.traces := by
        rw [htraces]
        exact List.mem_cons_self
      have hsame : RunToken.ofPath first.path = RunToken.ofPath given.path := by
        apply Decidable.byContradiction
        intro hne
        exact hrefused (.differentRuns hasked ⟨first, hfirst, given, hgiven, hne⟩)
      have hoffirst : RunToken.ofFirst args.traces = RunToken.ofPath first.path := by
        rw [htraces]
        rfl
      rw [hoffirst, hsame] at hslash
      exact RunToken.slash_not_mem_ofPath hname hslash
  · -- the check is off, so there are two traces, both of them read
    have hlength : args.traces.length = 2 := by
      refine hcount.resolve_right fun hthree => ?_
      cases hsame : args.sameRun with
      | none => exact hasked (Or.inr ⟨hsame, hthree⟩)
      | some sameRun =>
        cases sameRun with
        | false => exact hstray ⟨hsame, hthree, hslash⟩
        | true => exact hasked (Or.inl hsame)
    obtain ⟨first, second, htraces⟩ := List.length_eq_two.1 hlength
    rw [parsed, htraces] at htwo
    obtain ⟨name, hname⟩ := Progress.exists_fileName?_of_two htwo
    rw [htraces] at hslash
    exact RunToken.slash_not_mem_ofPath hname hslash

theorem slash_not_mem_label (h : ∀ trace ∈ args.traces, '/' ∉ trace.label.toList) :
    ∀ label ∈ (args.parsed tools tree memory).map (·.1), '/' ∉ label.toList := by
  intro label hlabel
  obtain ⟨parsed, hparsed, rfl⟩ := List.mem_map.1 hlabel
  obtain ⟨given, hgiven, hshown, -⟩ := Progress.exists_given_of_mem hparsed
  rw [hshown]
  exact h given hgiven

theorem slash_not_mem_stems
    (hlabels : ∀ label ∈ (args.parsed tools tree memory).map (·.1), '/' ∉ label.toList)
    (htoken : 2 ≤ (args.parsed tools tree memory).length →
      '/' ∉ (RunToken.ofFirst args.traces).text.toList) :
    ∀ stem ∈ Step.stems (args.run tools tree memory), '/' ∉ stem.toList := by
  intro stem hstem
  rcases List.mem_append.1 ((args.stems_run tree memory).subset hstem) with htrace | hcomparison
  · obtain ⟨name, hname, hstem⟩ := List.mem_flatMap.1 htrace
    exact Chart.slash_not_mem_traceStems (slash_not_mem_name hname) stem hstem
  · have htwo : 2 ≤ (args.parsed tools tree memory).length := by
      rw [Chart.comparisonStems, List.length_map] at hcomparison
      split at hcomparison
      · cases hcomparison
      · omega
    obtain ⟨operation, rfl⟩ := Chart.exists_of_mem_comparisonStems hcomparison
    exact Chart.slash_not_mem_comparisonStem (htoken htwo) hlabels operation

end CompareArgs

theorem AnalyzeArgs.slash_not_mem_stems (args : AnalyzeArgs) (tree : FileTree) :
    ∀ stem ∈ Step.stems (args.run tree), '/' ∉ stem.toList := by
  intro stem hstem
  obtain ⟨htrace, name, hname⟩ := mem_traceStems hstem
  exact Chart.slash_not_mem_traceStems (Path.slash_not_mem_displayName hname) stem htrace

/-- The charts of an analysis are files right in the directory that they are drawn into. Those of a
comparison are, too, unless the same-run check is off and the token of the first of three traces
has a slash. -/
theorem charts_in_directory {tools : Tools μ} {scale : LogScale} {canvas : Canvas}
    {format : ChartFormat} {directory : Path}
    (hfiles : tools.renderer = .toFiles scale canvas format directory) (tree : FileTree)
    (memory : μ) :
    (∀ (args : AnalyzeArgs) (summary : Summary) (final : Progress μ),
      analyzeTrace tools args tree memory = (.ok summary, final) →
        ∀ path ∈ summary.charts, ∃ name above, final.tree.FoundIn directory path name above) ∧
    ∀ (args : CompareArgs) (summary : Summary) (final : Progress μ),
      (∀ trace ∈ args.traces, '/' ∉ trace.label.toList) → ¬args.StrayToken →
      compareTraces tools args tree memory = (.ok summary, final) →
        ∀ path ∈ summary.charts, ∃ name above, final.tree.FoundIn directory path name above := by
  refine ⟨fun args summary final hdone => ?_, fun args summary final hlabels hstray hdone => ?_⟩
  · obtain ⟨reports, hadvance⟩ := args.advance_run tools tree memory
    exact Progress.foundIn_of_finish hfiles hadvance rfl (args.slash_not_mem_stems tree)
      (AnalyzeArgs.finish_of_ok hdone)
  · obtain ⟨hrefused, hfinish⟩ := CompareArgs.finish_of_ok hdone
    obtain ⟨reports, hadvance⟩ := args.advance_run tools tree memory
    have hslash : ∀ stem ∈ Step.stems (args.run tools tree memory), '/' ∉ stem.toList :=
      CompareArgs.slash_not_mem_stems (CompareArgs.slash_not_mem_label hlabels)
        fun htwo => CompareArgs.slash_not_mem_token hrefused htwo hstray
    exact Progress.foundIn_of_finish hfiles hadvance rfl hslash hfinish

/-- Charts as data in the directory `out`. -/
def fileTools : Tools Unit where
  scale := ⟨id, id⟩
  renderer := .toFiles ⟨id, id⟩ {} .json (.ofText "out")
  time := ""

def sampleAnalysis : AnalyzeArgs where
  trace := .ofText "run_a.csv"
  config := sampleComparison.config

theorem charts_in_directory_sample :
    ∃ summary final others last,
      compareTraces fileTools sampleComparison sampleTree () = (.ok summary, final) ∧
      summary.charts.length = 8 ∧
      (∀ path ∈ summary.charts,
        ∃ name above, final.tree.FoundIn (.ofText "out") path name above) ∧
      analyzeTrace fileTools sampleAnalysis sampleTree () =
        (.ok others, last) ∧
      others.charts.length = 3 ∧
      ∀ path ∈ others.charts, ∃ name above, last.tree.FoundIn (.ofText "out") path name above := by
  obtain ⟨summary, final, hsummary, height⟩ := exists_of_map_toOption
    (show (compareTraces fileTools sampleComparison sampleTree ()).1.toOption.map
      (·.charts.length) = some 8 by decide +kernel)
  obtain ⟨others, last, hothers, hthree⟩ := exists_of_map_toOption
    (show (analyzeTrace fileTools sampleAnalysis sampleTree ()).1.toOption.map
      (·.charts.length) = some 3 by decide +kernel)
  obtain ⟨hanalysis, hcomparison⟩ :=
    charts_in_directory (show fileTools.renderer = _ from rfl) sampleTree ()
  exact ⟨summary, final, others, last, hsummary, height,
    hcomparison sampleComparison summary final (by decide) (fun h => by cases h.1) hsummary,
    hothers, hthree, hanalysis _ others last hothers⟩

/-- A first trace that has no file name, with two more that can be read. -/
def strayComparison : CompareArgs where
  traces := Cli.labeledTraces (some (.ofText "data/..")) (some (.ofText "run_a.csv"))
    (some (.ofText "run_b.csv"))
  sameRun := some false
  config := { binning := { heatMapBins := 2, combinedBins := 2, logBins := 2 } }

theorem stray_charts :
    ∃ summary final, compareTraces fileTools strayComparison sampleTree () = (.ok summary, final) ∧
      ∃ path ∈ summary.charts, ∀ name, Path.IsName name →
        path ≠ (Path.ofText "out").join ⟨name⟩ := by
  obtain ⟨summary, final, hsummary, hwritten⟩ := exists_of_map_toOption
    (show (compareTraces fileTools strayComparison sampleTree ()).1.toOption.map
      (·.charts.contains (.ofText "out/data/.._tlsf_ori_vs_native_malloc_op_hist_plot.json")) =
        some true by decide +kernel)
  refine ⟨summary, final, hsummary, _, List.contains_iff_mem.1 hwritten,
    fun name hname heq => ?_⟩
  have hlength := congrArg (fun path => path.components.length) heq
  have hthree : (Path.ofText
      "out/data/.._tlsf_ori_vs_native_malloc_op_hist_plot.json").components.length = 3 := by
    decide
  have hone : (Path.ofText "out").components.length = 1 := by decide
  rw [Path.components_join hname.nonempty hname.noSlash, List.length_append, hthree, hone]
    at hlength
  cases hlength

end HeapLatency
