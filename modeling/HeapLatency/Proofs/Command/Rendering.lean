import HeapLatency.Proofs.Command.Runs
import HeapLatency.Proofs.Files.Changes

/-!
# Charts in files

A run whose renderer writes files. A chart that was written is found at its path from then on, and
it stays as it was written unless a later chart of the run has a file of the same name.
-/

namespace HeapLatency

variable {μ : Type}

namespace Step

def pair? (attempt : Step × Except Failure Path) : Option (Chart × Path) :=
  attempt.1.built?.bind fun chart => attempt.2.toOption.map fun path => (chart, path)

/-- The charts of steps that gave a path, with that path. -/
def written (steps : List Step) (results : List (Except Failure Path)) : List (Chart × Path) :=
  (steps.zip results).filterMap pair?

theorem map_snd_written {steps : List Step} {results : List (Except Failure Path)}
    (h : List.Forall₂ Gives steps results) : (written steps results).map (·.2) = paths results := by
  induction h with
  | nil => rfl
  | @cons step result steps results hgives _ ih =>
    cases hgives with
    | drawn stage chart path => exact congrArg (path :: ·) ih
    | notBuilt stage cause => exact ih
    | notRendered stage chart cause => exact ih
    | leftOut trace cause => exact ih
    | skipped parsed => exact ih

theorem stems_sublist_cons (step : Step) (steps : List Step) :
    (stems steps).Sublist (stems (step :: steps)) := by
  rw [← List.singleton_append, stems_append]
  exact List.sublist_append_right _ _

theorem stems_cons_of_built {step : Step} {chart : Chart} (h : step.built? = some chart)
    (steps : List Step) : stems (step :: steps) = chart.stem :: stems steps := by
  rw [stems, List.filterMap_cons_some h, List.map_cons]
  rfl

theorem written_cons_of_none {step : Step} {result : Except Failure Path}
    (h : pair? (step, result) = none) (steps : List Step)
    (results : List (Except Failure Path)) :
    written (step :: steps) (result :: results) = written steps results := by
  rw [written, List.zip_cons_cons, List.filterMap_cons_none h]
  rfl

theorem written_cons_error (step : Step) (steps : List Step) (failure : Failure)
    (results : List (Except Failure Path)) :
    written (step :: steps) (.error failure :: results) = written steps results := by
  apply written_cons_of_none
  rw [pair?]
  cases step.built? <;> rfl

theorem written_cons_ok {step : Step} {chart : Chart} (h : step.built? = some chart)
    (steps : List Step) (path : Path) (results : List (Except Failure Path)) :
    written (step :: steps) (.ok path :: results) = (chart, path) :: written steps results := by
  have hpair : pair? (step, .ok path) = some (chart, path) := by rw [pair?, h]; rfl
  rw [written, List.zip_cons_cons, List.filterMap_cons_some hpair]
  rfl

theorem written_stems_sublist (steps : List Step) (results : List (Except Failure Path)) :
    ((written steps results).map (·.1.stem)).Sublist (stems steps) := by
  induction steps generalizing results with
  | nil => exact List.nil_sublist _
  | cons step steps ih =>
    cases results with
    | nil => exact List.nil_sublist _
    | cons result results =>
      cases result with
      | error failure =>
        rw [written_cons_error]
        exact (ih results).trans (stems_sublist_cons step steps)
      | ok path =>
        cases hbuilt : step.built? with
        | none =>
          rw [written_cons_of_none (by rw [pair?, hbuilt]; rfl)]
          exact (ih results).trans (stems_sublist_cons step steps)
        | some chart =>
          rw [written_cons_ok hbuilt, stems_cons_of_built hbuilt, List.map_cons]
          exact (ih results).cons_cons chart.stem

theorem mem_stems_of_mem_written {steps : List Step} {results : List (Except Failure Path)}
    {chart : Chart} {path : Path} (h : (chart, path) ∈ written steps results) :
    chart.stem ∈ stems steps :=
  (written_stems_sublist steps results).subset (List.mem_map.2 ⟨_, h, rfl⟩)

end Step

/-! ## One step -/

/-- A path leads to a file with some content. -/
structure FileTree.Leads (tree : FileTree) (path : Path) (location : Location) (content : Bytes) :
    Prop where
  resolve : tree.resolve path = .ok location
  fileAt : tree.fileAt? location = some content

/-- Locations of files that are named after one of some stems. -/
def NamedAfter (format : ChartFormat) (stems : List String) (location : Location) : Prop :=
  ∃ stem ∈ stems, location.getLast? = some (bytesOf (stem ++ "." ++ format.name))

theorem NamedAfter.mono {stems others : List String} {location : Location}
    (h : NamedAfter format stems location) (hsubset : stems ⊆ others) :
    NamedAfter format others location := by
  obtain ⟨stem, hstem, hlocation⟩ := h
  exact ⟨stem, hsubset hstem, hlocation⟩

theorem not_namedAfter {format : ChartFormat} {stems : List String} {chart : Chart}
    {location : Location} (hlast : location.getLast? = some (chart.fileName format))
    (h : chart.stem ∉ stems) : ¬NamedAfter format stems location := by
  rintro ⟨stem, hstem, hname⟩
  have hsame : chart.stem = stem :=
    Chart.stem_eq_of_fileName_eq (Option.some.inj (hlast.symm.trans hname))
  exact h (hsame ▸ hstem)

namespace Step

theorem perform_of_built {scale : LogScale} {canvas : Canvas} {directory : Path} {step : Step}
    {chart : Chart} {text : String} {tree after : FileTree} (hbuilt : step.built? = some chart)
    (hcontent : format.content scale canvas chart = .ok text)
    (hwrite : tree.writeOutput (chart.path directory format) (bytesOf text) = (.ok (), after))
    (memory : μ) :
    step.perform (.toFiles scale canvas format directory) (tree, memory) =
      (.ok (chart.path directory format), after, memory) := by
  cases step with
  | leaveOut trace cause => cases hbuilt
  | skipComparison parsed => cases hbuilt
  | draw stage outcome =>
    obtain rfl : outcome = .ok chart := eq_ok_of_toOption hbuilt
    rw [perform, Renderer.toFiles, hcontent]
    dsimp only
    rw [hwrite]
    rfl

theorem perform_toFiles (scale : LogScale) (canvas : Canvas) (format : ChartFormat)
    (directory : Path) (step : Step) (tree : FileTree) (memory : μ) :
    (∃ failure left,
      step.perform (.toFiles scale canvas format directory) (tree, memory) =
        (.error failure, left, memory) ∧ FileTree.Keeps FileTree.Nowhere tree left) ∨
    ∃ chart text location after, step.built? = some chart ∧
      format.content scale canvas chart = .ok text ∧
      tree.writeOutput (chart.path directory format) (bytesOf text) = (.ok (), after) ∧
      step.perform (.toFiles scale canvas format directory) (tree, memory) =
        (.ok (chart.path directory format), after, memory) ∧
      FileTree.Written (chart.path directory format) (bytesOf text) location tree after := by
  cases step with
  | leaveOut trace cause => exact Or.inl ⟨_, tree, rfl, .refl _ tree⟩
  | skipComparison parsed => exact Or.inl ⟨_, tree, rfl, .refl _ tree⟩
  | draw stage outcome =>
    cases outcome with
    | error cause => exact Or.inl ⟨_, tree, rfl, .refl _ tree⟩
    | ok chart =>
      cases hcontent : format.content scale canvas chart with
      | error cause =>
        left
        rw [perform, Renderer.toFiles, hcontent]
        exact ⟨_, tree, rfl, .refl _ tree⟩
      | ok text =>
        rcases tree.writeOutput_outcome (chart.path directory format) (bytesOf text) with
          ⟨cause, left, hwrite, hkeeps⟩ | ⟨location, after, hwrite, hwritten⟩
        · left
          refine ⟨⟨stage, .render (.output cause)⟩, left, ?_, hkeeps⟩
          rw [perform, Renderer.toFiles, hcontent]
          dsimp only
          rw [hwrite]
          rfl
        · right
          exact ⟨chart, text, location, after, rfl, hcontent, hwrite,
            perform_of_built rfl hcontent hwrite memory, hwritten⟩

variable {scale : LogScale} {canvas : Canvas} {format : ChartFormat} {directory : Path}

theorem getLast?_of_written {chart : Chart} {content : Bytes} {location : Location}
    {before after : FileTree} (hname : '/' ∉ chart.stem.toList)
    (h : FileTree.Written (chart.path directory format) content location before after) :
    location.getLast? = some (chart.fileName format) := by
  have hplain : Path.IsName (chart.fileName format) := Chart.isName_fileName hname
  rw [h.getLast, Chart.path_eq_join, Path.components_join hplain.nonempty hplain.noSlash,
    List.getLast?_concat]

/-! ## Runs -/

theorem keeps_performAll {steps : List Step} (h : ∀ stem ∈ stems steps, '/' ∉ stem.toList)
    (state : FileTree × μ) : FileTree.Keeps (NamedAfter format (stems steps)) state.1
      (performAll (.toFiles scale canvas format directory) steps state).2.1 := by
  induction steps generalizing state with
  | nil => exact .refl _ state.1
  | cons step steps ih =>
    have hsubset : stems steps ⊆ stems (step :: steps) := (stems_sublist_cons step steps).subset
    have hrest (state : FileTree × μ) :
        FileTree.Keeps (NamedAfter format (stems (step :: steps))) state.1
          (performAll (.toFiles scale canvas format directory) steps state).2.1 :=
      (ih (fun stem hstem => h stem (hsubset hstem)) state).mono
        fun _ hlocation => hlocation.mono hsubset
    obtain ⟨tree, memory⟩ := state
    rw [performAll]
    rcases perform_toFiles scale canvas format directory step tree memory with
      ⟨failure, left, hperform, hkeeps⟩ |
        ⟨chart, text, location, after, hbuilt, -, -, hperform, hwritten⟩
    · rw [hperform]
      exact hkeeps.of_nowhere.trans (hrest (left, memory))
    · rw [hperform]
      have hstem : chart.stem ∈ stems (step :: steps) := by
        rw [stems_cons_of_built hbuilt]
        exact List.mem_cons_self
      refine (hwritten.keeps.mono ?_).trans (hrest (after, memory))
      rintro other rfl
      exact ⟨chart.stem, hstem, getLast?_of_written (h _ hstem) hwritten⟩

theorem mem_written_cons {step : Step} {steps : List Step} {state : FileTree × μ} {chart : Chart}
    {path : Path} (hmem : (chart, path) ∈ written (step :: steps)
      (performAll (.toFiles scale canvas format directory) (step :: steps) state).1) :
    (step.built? = some chart ∧ path = chart.path directory format ∧
      ∃ text location, format.content scale canvas chart = .ok text ∧
        FileTree.Written path (bytesOf text) location state.1
          (step.perform (.toFiles scale canvas format directory) state).2.1) ∨
    (chart, path) ∈ written steps (performAll (.toFiles scale canvas format directory) steps
      (step.perform (.toFiles scale canvas format directory) state).2).1 := by
  obtain ⟨tree, memory⟩ := state
  rw [performAll] at hmem
  rcases perform_toFiles scale canvas format directory step tree memory with
    ⟨failure, left, hperform, -⟩ |
      ⟨drawn, text, location, after, hbuilt, hcontent, -, hperform, hwritten⟩
  · rw [hperform, written_cons_error] at hmem
    rw [hperform]
    exact Or.inr hmem
  · rw [hperform, written_cons_ok hbuilt] at hmem
    rw [hperform]
    rcases List.mem_cons.1 hmem with hhere | hlater
    · cases hhere
      exact Or.inl ⟨hbuilt, rfl, text, location, hcontent, hwritten⟩
    · exact Or.inr hlater

theorem path_of_mem_written {steps : List Step} {state : FileTree × μ} {chart : Chart}
    {path : Path} (hmem : (chart, path) ∈ written steps
      (performAll (.toFiles scale canvas format directory) steps state).1) :
    path = chart.path directory format := by
  induction steps generalizing state with
  | nil => cases hmem
  | cons step steps ih =>
    rcases mem_written_cons hmem with ⟨-, hpath, -⟩ | hlater
    · exact hpath
    · exact ih hlater

/-- A chart that was written was there at some moment, and since then only files named after later
charts have changed. -/
theorem exists_moment {steps : List Step} (h : ∀ stem ∈ stems steps, '/' ∉ stem.toList)
    {state : FileTree × μ} {chart : Chart} {path : Path}
    (hmem : (chart, path) ∈ written steps
      (performAll (.toFiles scale canvas format directory) steps state).1) :
    ∃ text location mid first later,
      stems steps = first ++ chart.stem :: later ∧
      format.content scale canvas chart = .ok text ∧
      FileTree.Leads mid path location (bytesOf text) ∧
      location.getLast? = some (chart.fileName format) ∧
      FileTree.Keeps (NamedAfter format later) mid
        (performAll (.toFiles scale canvas format directory) steps state).2.1 := by
  induction steps generalizing state with
  | nil => cases hmem
  | cons step steps ih =>
    have hrest : ∀ stem ∈ stems steps, '/' ∉ stem.toList :=
      fun stem hstem => h stem ((stems_sublist_cons step steps).subset hstem)
    rcases mem_written_cons hmem with
      ⟨hbuilt, rfl, text, location, hcontent, hwritten⟩ | hlater
    · have hstems : stems (step :: steps) = chart.stem :: stems steps :=
        stems_cons_of_built hbuilt steps
      have hname : '/' ∉ chart.stem.toList := by
        apply h
        rw [hstems]
        exact List.mem_cons_self
      exact ⟨text, location, _, [], stems steps, hstems, hcontent,
        ⟨hwritten.resolve, hwritten.fileAt⟩, getLast?_of_written hname hwritten,
        keeps_performAll hrest _⟩
    · obtain ⟨text, location, mid, first, later, hstems, hmoment⟩ := ih hrest hlater
      refine ⟨text, location, mid, stems [step] ++ first, later, ?_, hmoment⟩
      rw [← List.singleton_append, stems_append, hstems, List.append_assoc]

theorem leads_of_nodup {steps : List Step} (h : ∀ stem ∈ stems steps, '/' ∉ stem.toList)
    (hnodup : (stems steps).Nodup) {state : FileTree × μ} {chart : Chart} {path : Path}
    (hmem : (chart, path) ∈ written steps
      (performAll (.toFiles scale canvas format directory) steps state).1) :
    ∃ text location, format.content scale canvas chart = .ok text ∧
      FileTree.Leads (performAll (.toFiles scale canvas format directory) steps state).2.1 path
        location (bytesOf text) := by
  obtain ⟨text, location, mid, first, later, hstems, hcontent, hleads, hlast, hkeeps⟩ :=
    exists_moment h hmem
  rw [hstems, List.nodup_append] at hnodup
  have hfree := not_namedAfter hlast (List.nodup_cons.1 hnodup.2.1).1
  exact ⟨text, location, hcontent, hkeeps.resolve hleads.resolve,
    hkeeps.fileAt? hfree hleads.fileAt⟩

end Step

/-! ## The end of a run -/

namespace Progress

/-- The text of the statistics of a command. -/
def statsText (tools : Tools μ) (summary : Summary) : String :=
  (StatsDocument.ofReports tools.time summary.reports).toJson.pretty

/-- A command that comes to an end has written the statistics, if they were asked for, and nothing
else since its last step. -/
theorem tree_of_finish {tools : Tools μ} {report : Option Path} {progress final : Progress μ}
    {summary : Summary} (h : progress.finish tools report = (.ok summary, final)) :
    report = none ∧ final.tree = progress.tree ∨ ∃ path location, report = some path ∧
      FileTree.Written path (bytesOf (statsText tools summary)) location progress.tree
        final.tree := by
  cases report with
  | none =>
    cases h
    exact Or.inl ⟨rfl, rfl⟩
  | some path =>
    right
    rw [finish, writeReports, FileTree.writeStats] at h
    rcases progress.tree.writeOutput_outcome path
        (bytesOf (StatsDocument.ofReports tools.time progress.summary.reports).toJson.pretty) with
      ⟨cause, left, hwrite, -⟩ | ⟨location, after, hwrite, hwritten⟩
    · simp only [hwrite] at h
      cases h
    · simp only [hwrite] at h
      cases h
      exact ⟨path, location, rfl, hwritten⟩

end Progress

end HeapLatency
