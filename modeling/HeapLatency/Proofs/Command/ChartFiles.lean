import HeapLatency.Proofs.Command.ChartPlaces

/-!
# Charts that last

Two charts of a comparison go to the same file only if their stems agree, and stems agree only
through the names of the traces. When they do not, every chart that was written is still there,
with its own content, when the command ends.
-/

namespace HeapLatency

variable {μ : Type}

/-- The charts that a comparison has written, with their paths. -/
def CompareArgs.written (args : CompareArgs) (tools : Tools μ) (tree : FileTree) (memory : μ) :
    List (Chart × Path) :=
  Step.written (args.run tools tree memory)
    (Step.performAll tools.renderer (args.run tools tree memory) (tree, memory)).1

namespace CompareArgs

variable {args : CompareArgs} {tools : Tools μ} {tree : FileTree} {memory : μ} {scale : LogScale}
  {canvas : Canvas} {format : ChartFormat} {directory : Path}

/-- No trace that was read has the name of another, or that of another chart. -/
def NamesApart (args : CompareArgs) (tools : Tools μ) (tree : FileTree) (memory : μ) : Prop :=
  Chart.NamesApart ((args.parsed tools tree memory).map (·.2.name)) (.ofFirst args.traces)
    ((args.parsed tools tree memory).map (·.1))

theorem nodup_stems (h : args.NamesApart tools tree memory) :
    (Step.stems (args.run tools tree memory)).Nodup :=
  (args.stems_run tree memory).nodup h.nodup_stems

theorem head?_of_mem_stems (htoken : (RunToken.ofFirst args.traces).text.toList.head? ≠ some '/')
    {stem : String} (h : stem ∈ Step.stems (args.run tools tree memory)) :
    stem.toList.head? ≠ some '/' := by
  rcases List.mem_append.1 ((args.stems_run tree memory).subset h) with htrace | hcomparison
  · obtain ⟨name, hname, hstem⟩ := List.mem_flatMap.1 htrace
    intro hhead
    exact Chart.slash_not_mem_traceStems (slash_not_mem_name hname) stem hstem
      (List.mem_of_head? hhead)
  · obtain ⟨operation, rfl⟩ := Chart.exists_of_mem_comparisonStems hcomparison
    exact Chart.head?_comparisonStem _ operation htoken

theorem nodup_written (hfiles : tools.renderer = .toFiles scale canvas format directory)
    (hapart : args.NamesApart tools tree memory)
    (htoken : (RunToken.ofFirst args.traces).text.toList.head? ≠ some '/') :
    ((args.written tools tree memory).map (·.2)).Nodup := by
  have hsublist := Step.written_stems_sublist (args.run tools tree memory)
    (Step.performAll tools.renderer (args.run tools tree memory) (tree, memory)).1
  have hstems := List.pairwise_map.1 (hsublist.nodup (nodup_stems hapart))
  refine List.pairwise_map.2 (hstems.imp_of_mem ?_)
  rintro ⟨chart, path⟩ ⟨other, otherPath⟩ hchart hother hne hsame
  have hhead : ∀ entry ∈ args.written tools tree memory,
      entry.1.stem.toList.head? ≠ some '/' := fun entry hentry =>
    head?_of_mem_stems htoken (Step.mem_stems_of_mem_written hentry)
  have hpath := hhead _ hchart
  have hotherPath := hhead _ hother
  rw [hfiles] at hchart hother
  rw [Step.path_of_mem_written hchart, Step.path_of_mem_written hother] at hsame
  exact hne (Chart.path_injective hpath hotherPath hsame)

theorem map_parsed {shown : List (String × String)}
    (h : (args.parsed tools tree memory).map (fun parsed => (parsed.1, parsed.2.name)) = shown) :
    (args.parsed tools tree memory).map (·.1) = shown.map (·.1) ∧
      (args.parsed tools tree memory).map (·.2.name) = shown.map (·.2) := by
  rw [← h, List.map_map, List.map_map]
  exact ⟨rfl, rfl⟩

/-- The statistics of a command are at the place of a chart. -/
def ReportedOver (args : CompareArgs) (tree : FileTree) (path : Path) : Prop :=
  ∃ report location, args.report = some report ∧ tree.resolve report = .ok location ∧
    tree.resolve path = .ok location

theorem read_of_mem_written {progress final : Progress μ} {summary : Summary} {chart : Chart}
    {path : Path} (hfiles : tools.renderer = .toFiles scale canvas format directory)
    (hapart : args.NamesApart tools tree memory)
    (hslash : ∀ stem ∈ Step.stems (args.run tools tree memory), '/' ∉ stem.toList)
    (hstate : progress.state =
      (Step.performAll tools.renderer (args.run tools tree memory) (tree, memory)).2)
    (hfinish : progress.finish tools args.report = (.ok summary, final))
    (hmem : (chart, path) ∈ args.written tools tree memory) :
    ∃ text, format.content scale canvas chart = .ok text ∧
      (final.tree.read path = .ok (bytesOf text) ∨ args.ReportedOver final.tree path) := by
  rw [written, hfiles] at hmem
  obtain ⟨text, location, hcontent, hleads⟩ :=
    Step.leads_of_nodup hslash (nodup_stems hapart) hmem
  rw [← hfiles, ← hstate] at hleads
  refine ⟨text, hcontent, ?_⟩
  rcases Progress.tree_of_finish hfinish with
    ⟨-, htree⟩ | ⟨report, place, hreport, hwritten⟩
  · rw [htree]
    exact Or.inl (FileTree.read_eq_ok_iff.2 ⟨location, hleads.resolve, hleads.fileAt⟩)
  · have hresolve := hwritten.keeps.resolve hleads.resolve
    by_cases hplace : location = place
    · subst hplace
      exact Or.inr ⟨report, location, hreport, hwritten.resolve, hresolve⟩
    · have hfile := hwritten.keeps.fileAt? hplace hleads.fileAt
      exact Or.inl (FileTree.read_eq_ok_iff.2 ⟨location, hresolve, hfile⟩)

theorem read_report {path : Path} {summary : Summary} {final : Progress μ}
    (hreport : args.report = some path)
    (hdone : compareTraces tools args tree memory = (.ok summary, final)) :
    final.tree.read path = .ok (bytesOf (Progress.statsText tools summary)) := by
  obtain ⟨-, hfinish⟩ := finish_of_ok hdone
  rw [hreport] at hfinish
  rcases Progress.tree_of_finish hfinish with ⟨hnone, -⟩ | ⟨report, location, hsame, hwritten⟩
  · cases hnone
  · cases hsame
    exact hwritten.read

end CompareArgs

/-- If no two charts of a comparison have the same stem, and the run token does not begin with a
slash, they go to different paths. If token and labels have no slash at all, each of them is still
on disk as it was written when the command ends, except where the statistics were written over
it. -/
theorem charts_last {tools : Tools μ} {scale : LogScale} {canvas : Canvas} {format : ChartFormat}
    {directory : Path} {args : CompareArgs} {tree : FileTree} {memory : μ} {summary : Summary}
    {final : Progress μ} (hfiles : tools.renderer = .toFiles scale canvas format directory)
    (hapart : args.NamesApart tools tree memory)
    (htoken : (RunToken.ofFirst args.traces).text.toList.head? ≠ some '/')
    (hdone : compareTraces tools args tree memory = (.ok summary, final)) :
    summary.charts.Nodup ∧
    (args.written tools tree memory).map (·.2) = summary.charts ∧
    ('/' ∉ (RunToken.ofFirst args.traces).text.toList →
      (∀ label ∈ (args.parsed tools tree memory).map (·.1), '/' ∉ label.toList) →
      ∀ chart path, (chart, path) ∈ args.written tools tree memory →
        ∃ text, format.content scale canvas chart = .ok text ∧
          (final.tree.read path = .ok (bytesOf text) ∨ args.ReportedOver final.tree path)) := by
  obtain ⟨-, hfinish⟩ := CompareArgs.finish_of_ok hdone
  obtain ⟨reports, hadvance⟩ := args.advance_run tools tree memory
  have hcharts : (args.written tools tree memory).map (·.2) = summary.charts := by
    rw [Progress.summary_of_finish (congrArg Prod.fst hfinish), ← hadvance.map_snd_written rfl]
    rfl
  refine ⟨?_, hcharts, fun hslash hlabels chart path hmem => ?_⟩
  · rw [← hcharts]
    exact CompareArgs.nodup_written hfiles hapart htoken
  · exact CompareArgs.read_of_mem_written hfiles hapart
      (CompareArgs.slash_not_mem_stems hlabels fun _ => hslash) hadvance.state hfinish hmem

theorem charts_last_sample :
    ∃ summary final,
      compareTraces fileTools sampleComparison sampleTree () = (.ok summary, final) ∧
      summary.charts.length = 8 ∧ summary.charts.Nodup ∧
      (sampleComparison.written fileTools sampleTree ()).map (·.2) = summary.charts ∧
      ∀ chart path, (chart, path) ∈ sampleComparison.written fileTools sampleTree () →
        ∃ text, ChartFormat.json.content ⟨id, id⟩ {} chart = .ok text ∧
          final.tree.read path = .ok (bytesOf text) := by
  obtain ⟨summary, final, hsummary, height⟩ := exists_of_map_toOption
    (show (compareTraces fileTools sampleComparison sampleTree ()).1.toOption.map
      (·.charts.length) = some 8 by decide +kernel)
  have hparsed : (sampleComparison.parsed fileTools sampleTree ()).map
      (fun parsed => (parsed.1, parsed.2.name)) = [("a", "run_a.csv"), ("b", "run_b.csv")] := by
    decide +kernel
  obtain ⟨hlabels, hnames⟩ := CompareArgs.map_parsed hparsed
  have hapart : sampleComparison.NamesApart fileTools sampleTree () := by
    rw [CompareArgs.NamesApart, hlabels, hnames]
    exact ⟨by decide, by decide, by decide⟩
  obtain ⟨hnodup, hcharts, hlast⟩ := charts_last
    (show fileTools.renderer = .toFiles ⟨id, id⟩ {} .json (.ofText "out") from rfl) hapart
    (by decide) hsummary
  refine ⟨summary, final, hsummary, height, hnodup, hcharts, fun chart path hmem => ?_⟩
  obtain ⟨text, hcontent, hread⟩ := hlast (by decide) (by rw [hlabels]; decide) chart path hmem
  refine ⟨text, hcontent, hread.resolve_right ?_⟩
  rintro ⟨report, _, hreport, -⟩
  cases hreport

/-- Two traces of the same name in two directories, and one that is named like a chart of theirs. -/
def twinTree : FileTree where
  entries := [
    (bytesOf "a", .directory
      [(bytesOf "run_x", .file (bytesOf "#\n#\nmalloc,1048576,1,500\nfree,1048576,1,300"))]),
    (bytesOf "b", .directory
      [(bytesOf "run_x", .file (bytesOf "#\n#\nmalloc,1048576,1,700\nfree,1048576,1,900")),
        (bytesOf "run_x_malloc_chunk_vs_cycles",
          .file (bytesOf "#\n#\nmalloc,1048576,1,700\nfree,1048576,1,900"))])]

def twinComparison (second : String) (report : Option Path) : CompareArgs where
  traces := Cli.labeledTraces (some (.ofText "a/run_x")) none (some (.ofText second))
  report
  config := sampleComparison.config

/-- The traces have different paths in all three comparisons. In the first one they have the same
name, in the second one the name of one is the stem of a chart of the other, and in the third one
the statistics are written over a chart. -/
theorem charts_overwritten :
    (∀ second ∈ ["b/run_x", "b/run_x_malloc_chunk_vs_cycles"],
      ((twinComparison second none).traces.map (·.path)).Nodup) ∧
    (∃ summary final,
      compareTraces fileTools (twinComparison "b/run_x" none) twinTree () = (.ok summary, final) ∧
        ¬summary.charts.Nodup) ∧
    (∃ summary final,
      compareTraces fileTools (twinComparison "b/run_x_malloc_chunk_vs_cycles" none) twinTree () =
        (.ok summary, final) ∧ ¬summary.charts.Nodup) ∧
    ∃ summary final, ∃ path ∈ summary.charts,
      compareTraces fileTools (twinComparison "b/run_x_malloc_chunk_vs_cycles" (some path))
        twinTree () = (.ok summary, final) ∧
      final.tree.read path = .ok (bytesOf (Progress.statsText fileTools summary)) := by
  obtain ⟨first, firstFinal, hfirst, hfirstNodup⟩ := exists_of_map_toOption
    (show (compareTraces fileTools (twinComparison "b/run_x" none) twinTree ()).1.toOption.map
      (fun summary => decide summary.charts.Nodup) = some false by decide +kernel)
  obtain ⟨second, secondFinal, hsecond, hsecondNodup⟩ := exists_of_map_toOption
    (show (compareTraces fileTools (twinComparison "b/run_x_malloc_chunk_vs_cycles" none)
      twinTree ()).1.toOption.map (fun summary => decide summary.charts.Nodup) = some false
      by decide +kernel)
  obtain ⟨third, thirdFinal, hthird, hmem⟩ := exists_of_map_toOption
    (show (compareTraces fileTools (twinComparison "b/run_x_malloc_chunk_vs_cycles"
      (some (.ofText "out/run_x.json"))) twinTree ()).1.toOption.map
      (·.charts.contains (.ofText "out/run_x.json")) = some true by decide +kernel)
  exact ⟨by decide, ⟨first, firstFinal, hfirst, of_decide_eq_false hfirstNodup⟩,
    ⟨second, secondFinal, hsecond, of_decide_eq_false hsecondNodup⟩,
    third, thirdFinal, _, List.contains_iff_mem.1 hmem, hthird,
    CompareArgs.read_report rfl hthird⟩

end HeapLatency
