import HeapLatency.Proofs.Command.Inputs
import HeapLatency.Proofs.Files.Rewriting

/-!
# Analyzing again

An analysis that left nothing out can be repeated. Its charts are not in the place of its trace, so
the trace reads as before, and they are not in each other's place, so each of them is written over
itself. The second time nothing changes, and what is told is the same.
-/

namespace HeapLatency

variable {μ : Type}

namespace Step

theorem exists_of_clean {renderer : Renderer μ} {step : Step} {steps : List Step}
    {state last : FileTree × μ} {results : List (Except Failure Path)}
    (hall : performAll renderer (step :: steps) state = (results, last))
    (hclean : failures results = []) :
    ∃ path mid others, results = .ok path :: others ∧
      step.perform renderer state = (.ok path, mid) ∧
      performAll renderer steps mid = (others, last) ∧ failures others = [] := by
  obtain ⟨result, mid, hperform⟩ : ∃ result mid, step.perform renderer state = (result, mid) :=
    ⟨_, _, rfl⟩
  rw [performAll, hperform] at hall
  cases hall
  cases result with
  | error failure => cases hclean
  | ok path => exact ⟨path, mid, _, rfl, hperform, rfl, hclean⟩

variable {scale : LogScale} {canvas : Canvas} {format : ChartFormat} {directory : Path}

theorem perform_again {step : Step} {before after : FileTree} {memory left : μ} {path : Path}
    (h : step.perform (.toFiles scale canvas format directory) (before, memory) =
      (.ok path, after, left)) :
    ∃ chart text location, step.built? = some chart ∧ path = chart.path directory format ∧
      FileTree.Written path (bytesOf text) location before after ∧ after.ParentReady path ∧
      ∀ (tree : FileTree) (other : μ), tree.read path = .ok (bytesOf text) →
        tree.ParentReady path →
        step.perform (.toFiles scale canvas format directory) (tree, other) =
          (.ok path, tree, other) := by
  rcases perform_toFiles scale canvas format directory step before memory with
    ⟨failure, last, hperform, -⟩ |
      ⟨chart, text, location, last, hbuilt, hcontent, hwrite, hperform, hwritten⟩
  · rw [h] at hperform
    cases hperform
  · rw [h] at hperform
    cases hperform
    refine ⟨chart, text, location, hbuilt, rfl, hwritten,
      FileTree.parentReady_of_writeOutput hwrite, fun tree other hread hready => ?_⟩
    exact perform_of_built hbuilt hcontent (FileTree.writeOutput_of_read hread hready) other

/-- Charts of different names that were all drawn are drawn again without any change. -/
theorem performAll_again {steps : List Step} (hslash : ∀ stem ∈ stems steps, '/' ∉ stem.toList)
    (hnodup : (stems steps).Nodup) {state : FileTree × μ} {results : List (Except Failure Path)}
    {after : FileTree} {left : μ}
    (hall : performAll (.toFiles scale canvas format directory) steps state =
      (results, after, left))
    (hclean : failures results = []) (other : μ) :
    performAll (.toFiles scale canvas format directory) steps (after, other) =
      (results, after, other) := by
  induction steps generalizing state results with
  | nil =>
    cases hall
    rfl
  | cons step steps ih =>
    have hrest : ∀ stem ∈ stems steps, '/' ∉ stem.toList :=
      fun stem hstem => hslash stem ((stems_sublist_cons step steps).subset hstem)
    obtain ⟨path, mid, others, rfl, hperform, hothers, hclean⟩ := exists_of_clean hall hclean
    obtain ⟨chart, text, location, hbuilt, rfl, hwritten, hready, hagain⟩ :=
      perform_again hperform
    -- the charts drawn later are in other places
    have hkeeps : FileTree.Keeps (NamedAfter format (stems steps)) mid.1 after := by
      have hlater : FileTree.Keeps (NamedAfter format (stems steps)) mid.1
          (performAll (.toFiles scale canvas format directory) steps mid).2.1 :=
        keeps_performAll hrest mid
      rwa [hothers] at hlater
    rw [stems_cons_of_built hbuilt] at hslash hnodup
    have hfree : ¬NamedAfter format (stems steps) location :=
      not_namedAfter (getLast?_of_written (hslash _ List.mem_cons_self) hwritten)
        (List.nodup_cons.1 hnodup).1
    have hread := FileTree.read_eq_ok_iff.2
      ⟨location, hkeeps.resolve hwritten.resolve, hkeeps.fileAt? hfree hwritten.fileAt⟩
    rw [performAll, hagain after other hread (hkeeps.parentReady hready)]
    dsimp only
    rw [ih hrest (List.nodup_cons.1 hnodup).2 hothers hclean]

end Step

section Run

variable {tools : Tools μ} {scale : LogScale} {canvas : Canvas} {format : ChartFormat}
  {directory : Path}

theorem Progress.drawChart_of_perform {stage : String} {outcome : Except BinError Chart}
    {progress : Progress μ} {path : Path} {tree : FileTree} {memory : μ}
    (h : (Step.draw stage outcome).perform tools.renderer progress.state =
      (.ok path, tree, memory)) :
    progress.drawChart tools stage outcome = { progress with tree, memory }.addChart path := by
  cases outcome with
  | error cause => cases h
  | ok chart =>
    obtain ⟨result, after, left, hrender⟩ : ∃ result after left,
        tools.renderer chart (progress.tree, progress.memory) = (result, after, left) :=
      ⟨_, _, _, rfl⟩
    rw [state, Step.perform, hrender] at h
    rw [drawChart, hrender]
    cases result with
    | error cause => cases h
    | ok drawn =>
      cases h
      rfl

theorem Progress.drawCharts_of_clean {charts : List (String × Except BinError Chart)}
    (progress : Progress μ) {results : List (Except Failure Path)} {after : FileTree} {left : μ}
    (hall : Step.performAll tools.renderer (Step.drawAll charts) progress.state =
      (results, after, left))
    (hclean : Step.failures results = []) :
    progress.drawCharts tools charts =
      { progress with
        tree := after
        memory := left
        summary.charts := progress.summary.charts ++ Step.paths results } := by
  induction charts generalizing progress results with
  | nil =>
    cases hall
    show progress = { progress with summary.charts := progress.summary.charts ++ [] }
    rw [List.append_nil]
  | cons entry charts ih =>
    obtain ⟨stage, outcome⟩ := entry
    obtain ⟨path, mid, others, rfl, hperform, hothers, hclean⟩ := Step.exists_of_clean hall hclean
    show (progress.drawChart tools stage outcome).drawCharts tools charts = _
    rw [drawChart_of_perform hperform,
      ih (addChart path { progress with tree := mid.1, memory := mid.2 }) hothers hclean, addChart,
      List.append_assoc]
    rfl

namespace AnalyzeArgs

variable {args : AnalyzeArgs} {tree : FileTree}

/-- Whether an analysis is refused is seen in its trace alone, once that could be read. -/
theorem not_refused_of_read {later : FileTree} {content : Bytes} (h : ¬args.Refused tree)
    (hread : tree.read args.trace = .ok content) (hlater : later.read args.trace = .ok content) :
    ¬args.Refused later := by
  rintro (hempty | hdirectory | ⟨cause, hconfig⟩ | ⟨cause, htrace⟩)
  · exact h (.emptyPath hempty)
  · rw [FileTree.isDirectory_of_read hlater] at hdirectory
    cases hdirectory
  · exact h (.invalidConfig cause hconfig)
  · rw [FileTree.readTrace, hlater] at htrace
    exact h (.noTrace cause (by rw [FileTree.readTrace, hread, htrace]))

theorem read_trace_of_no_report
    (hfiles : tools.renderer = .toFiles scale canvas format directory)
    (hreport : args.report = none) {memory : μ} {summary : Summary} {final : Progress μ}
    {content : Bytes} (hdone : analyzeTrace tools args tree memory = (.ok summary, final))
    (hread : tree.read args.trace = .ok content) : final.tree.read args.trace = .ok content := by
  have hlast : (analyzeTrace tools args tree memory).2.tree.read args.trace = .ok content ∨ _ :=
    read_trace hfiles hread
  rw [hdone] at hlast
  refine hlast.resolve_right ?_
  rintro ⟨place, hplace, -⟩
  rw [hreport] at hplace
  cases hplace

theorem nodup_stems (args : AnalyzeArgs) (tree : FileTree) :
    (Step.stems (args.run tree)).Nodup := by
  rw [run]
  split
  · exact List.nodup_nil
  · exact (Chart.nodup_traceStems _).sublist (Step.stems_traceCharts _ _)

theorem exists_parsed (h : ¬args.Refused tree) :
    ∃ parsed, tree.classifyTrace args.config args.trace = .ok parsed := by
  rw [FileTree.classifyTrace]
  cases hread : tree.readTrace args.trace with
  | error cause => exact absurd (.noTrace cause hread) h
  | ok trace => exact ⟨_, rfl⟩

theorem drawn_of_clean {parsed : ClassifiedTrace} {memory left : μ}
    {results : List (Except Failure Path)} {after : FileTree}
    (hparsed : tree.classifyTrace args.config args.trace = .ok parsed)
    (hall : Step.performAll tools.renderer (args.run tree) (tree, memory) = (results, after, left))
    (hclean : Step.failures results = []) :
    args.drawn tools tree memory =
      Progress.addReport (.ofTrace args.config.cutoffs parsed)
        { tree := after, memory := left, summary.charts := Step.paths results } := by
  rw [run, hparsed] at hall
  rw [drawn, Progress.processTrace_eq, hparsed]
  dsimp only
  rw [Progress.drawCharts_of_clean _ hall hclean]
  rfl

end AnalyzeArgs

end Run

/-- An analysis that left nothing out, and wrote no statistics, can be done again. The second time
gives the same charts, reports, warnings and text for the terminal, nothing is left out, and no file
or directory is changed. Neither the time nor what the renderer keeps has a part in that. -/
theorem analyze_again {tools : Tools μ} {scale : LogScale} {canvas : Canvas} {format : ChartFormat}
    {directory : Path} (hfiles : tools.renderer = .toFiles scale canvas format directory)
    {args : AnalyzeArgs} (hreport : args.report = none) {tree : FileTree} {memory : μ}
    {summary : Summary} {final : Progress μ}
    (hdone : analyzeTrace tools args tree memory = (.ok summary, final))
    (hclean : summary.failures = []) (time : String) (other : μ) :
    analyzeTrace { tools with time } args final.tree other =
      (.ok summary, { final with memory := other }) := by
  have hrefused := AnalyzeArgs.not_refused_of_ok hdone
  have hfinish := AnalyzeArgs.finish_of_ok hdone
  obtain ⟨parsed, hparsed⟩ := AnalyzeArgs.exists_parsed hrefused
  obtain ⟨content, hread⟩ := FileTree.exists_read_of_classifyTrace hparsed
  -- the trace is still there, so the second run has the steps of the first
  have hkept := AnalyzeArgs.read_trace_of_no_report hfiles hreport hdone hread
  have hsame : final.tree.classifyTrace args.config args.trace = .ok parsed := by
    rw [← hparsed, FileTree.classifyTrace, FileTree.readTrace, hkept, FileTree.classifyTrace,
      FileTree.readTrace, hread]
  have hrun : args.run final.tree = args.run tree := by
    rw [AnalyzeArgs.run, hsame, AnalyzeArgs.run, hparsed]
  -- none of its steps changes what the first run has drawn
  obtain ⟨results, after, left, hall⟩ : ∃ results after left,
      Step.performAll tools.renderer (args.run tree) (tree, memory) = (results, after, left) :=
    ⟨_, _, _, rfl⟩
  obtain ⟨reports, hadvance⟩ := args.advance_run tools tree memory
  rw [hreport] at hfinish
  cases hfinish
  have hnone : Step.failures results = [] := by
    rw [← hclean, hadvance.failures]
    show _ = Step.failures (Step.performAll tools.renderer (args.run tree) (tree, memory)).1
    rw [hall]
  have hagain : Step.performAll tools.renderer (args.run tree) (after, other) =
      (results, after, other) := by
    rw [hfiles] at hall ⊢
    exact Step.performAll_again (args.slash_not_mem_stems tree) (args.nodup_stems tree) hall hnone
      other
  have hfirst := AnalyzeArgs.drawn_of_clean hparsed hall hnone
  rw [hfirst] at hkept hsame hrun ⊢
  rw [AnalyzeArgs.analyzeTrace_of_not_refused
    (AnalyzeArgs.not_refused_of_read hrefused hread hkept), hreport,
    AnalyzeArgs.drawn_of_clean hsame (by rw [hrun]; exact hagain) hnone]
  rfl

theorem analyze_again_sample :
    ∃ summary final, analyzeTrace fileTools sampleAnalysis sampleTree () = (.ok summary, final) ∧
      summary.charts.length = 3 ∧ summary.failures = [] ∧
      analyzeTrace { fileTools with time := "later" } sampleAnalysis final.tree () =
        (.ok summary, final) := by
  obtain ⟨summary, final, hdone, hmade⟩ := exists_of_map_toOption
    (show (analyzeTrace fileTools sampleAnalysis sampleTree ()).1.toOption.map
      (fun summary => (summary.charts.length, summary.failures)) = some (3, []) by decide +kernel)
  obtain ⟨hthree, hclean⟩ := Prod.mk.inj hmade
  exact ⟨summary, final, hdone, hthree, hclean,
    analyze_again (show fileTools.renderer = _ from rfl) rfl hdone hclean "later" ()⟩

end HeapLatency
