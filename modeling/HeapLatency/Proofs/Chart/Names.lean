import HeapLatency.Chart.Render
import HeapLatency.Proofs.Chart.Built
import HeapLatency.Proofs.Files.Paths
import Mathlib.Data.List.Nodup

/-!
# Names of charts

The file of a chart is named after its stem. The stems of one run follow three schemes: the name
of a trace with an operation, that name alone, and the run token with labels and an operation.
-/

namespace HeapLatency.Chart

/-! ## Stems -/

def latencyStem (name : String) (operation : Operation) : String :=
  name ++ "_" ++ operation.name ++ "_chunk_vs_cycles"

def comparisonStem (token : RunToken) (labels : List String) (operation : Operation) : String :=
  token.text ++ "_" ++ "_vs_".intercalate labels ++ "_" ++ operation.name ++ "_op_hist_plot"

def latencyStems (name : String) : List String := Operation.all.map (latencyStem name)

/-- The stems of the charts of one trace. -/
def traceStems (name : String) : List String := latencyStems name ++ [name]

/-- The stems of the charts across traces, which take two of them. -/
def comparisonStems (token : RunToken) (labels : List String) : List String :=
  if labels.length < 2 then [] else Operation.all.map (comparisonStem token labels)

variable {binning : Binning} {trace : ClassifiedTrace} {chart : Chart}

theorem stem_of_latencyVsSize {operation : Operation}
    (h : latencyVsSize binning trace operation = .ok chart) :
    chart.stem = latencyStem trace.name operation := by
  obtain ⟨xBins, yBins, -, -, rfl⟩ := latencyVsSize_eq_ok_iff.1 h
  rfl

theorem stem_of_combined (h : combined binning trace = .ok chart) : chart.stem = trace.name := by
  obtain ⟨xBins, -, rfl⟩ := combined_eq_ok_iff.1 h
  rfl

theorem stem_of_logComparison {scale : LogScale} {token : RunToken}
    {traces : List (String × ClassifiedTrace)} {operation : Operation}
    (h : logComparison scale binning token traces operation = .ok chart) :
    chart.stem = comparisonStem token (traces.map (·.1)) operation := by
  obtain ⟨xBins, -, rfl⟩ := logComparison_eq_ok_iff.1 h
  rfl

theorem append_name_inj {front other : String} {first second : Operation}
    (h : front ++ first.name = other ++ second.name) : front = other ∧ first = second := by
  have hlast : first.name.toList.getLast? = second.name.toList.getLast? := by
    have hall := congrArg (fun text => text.toList.getLast?) h
    simp only [String.toList_append, List.getLast?_append] at hall
    cases first <;> cases second <;> exact hall
  have hoperation : first = second := by
    cases first <;> cases second <;> first | rfl | exact absurd hlast (by decide)
  subst hoperation
  exact ⟨(String.append_left_inj _).1 h, rfl⟩

theorem latencyStem_inj {name other : String} {first second : Operation}
    (h : latencyStem name first = latencyStem other second) : name = other ∧ first = second := by
  obtain ⟨hfront, hoperation⟩ := append_name_inj ((String.append_left_inj _).1 h)
  exact ⟨(String.append_left_inj _).1 hfront, hoperation⟩

theorem comparisonStem_inj {token : RunToken} {labels : List String} {first second : Operation}
    (h : comparisonStem token labels first = comparisonStem token labels second) :
    first = second :=
  (append_name_inj ((String.append_left_inj _).1 h)).2

theorem latencyStem_ne_comparisonStem (name : String) (token : RunToken) (labels : List String)
    (first second : Operation) : latencyStem name first ≠ comparisonStem token labels second := by
  intro h
  have hlast := congrArg (fun text => text.toList.getLast?) h
  have hcycles : "_chunk_vs_cycles".toList.getLast? = some 's' := by decide
  have hplot : "_op_hist_plot".toList.getLast? = some 't' := by decide
  simp only [latencyStem, comparisonStem, String.toList_append, List.getLast?_append, hcycles,
    hplot, Option.some_or] at hlast
  exact absurd (Option.some.inj hlast) (by decide)

theorem exists_of_mem_latencyStems {name stem : String} (h : stem ∈ latencyStems name) :
    ∃ operation, stem = latencyStem name operation := by
  obtain ⟨operation, -, rfl⟩ := List.mem_map.1 h
  exact ⟨operation, rfl⟩

theorem exists_of_mem_comparisonStems {token : RunToken} {labels : List String} {stem : String}
    (h : stem ∈ comparisonStems token labels) :
    ∃ operation, stem = comparisonStem token labels operation := by
  rw [comparisonStems] at h
  split at h
  · cases h
  · obtain ⟨operation, -, rfl⟩ := List.mem_map.1 h
    exact ⟨operation, rfl⟩

/-- The names of traces differ from each other, and from the stems of all other charts. -/
structure NamesApart (names : List String) (token : RunToken) (labels : List String) : Prop where
  nodup : names.Nodup
  latency : ∀ name ∈ names, ∀ other ∈ names, name ∉ latencyStems other
  comparison : ∀ name ∈ names, name ∉ comparisonStems token labels

theorem nodup_map_of_injective_all {f : Operation → String} (h : Function.Injective f) :
    (Operation.all.map f).Nodup := (by decide : Operation.all.Nodup).map h

theorem nodup_comparisonStems (token : RunToken) (labels : List String) :
    (comparisonStems token labels).Nodup := by
  rw [comparisonStems]
  split
  · exact List.nodup_nil
  · exact nodup_map_of_injective_all fun _ _ => comparisonStem_inj

theorem mem_traceStems {name stem : String} :
    stem ∈ traceStems name ↔ stem ∈ latencyStems name ∨ stem = name := by
  rw [traceStems, List.mem_append, List.mem_singleton]

/-- The stem of a chart with an operation is longer than the name of its trace. -/
theorem not_mem_latencyStems_self (name : String) : name ∉ latencyStems name := by
  intro h
  obtain ⟨operation, heq⟩ := exists_of_mem_latencyStems h
  have hlength := congrArg String.length heq
  have hunderscore : "_".length = 1 := rfl
  simp only [latencyStem, String.length_append, hunderscore] at hlength
  omega

theorem nodup_traceStems (name : String) : (traceStems name).Nodup := by
  refine List.Nodup.append (nodup_map_of_injective_all fun _ _ heq => (latencyStem_inj heq).2)
    (List.nodup_singleton name) ?_
  intro stem hstem hsame
  rw [List.mem_singleton.1 hsame] at hstem
  exact not_mem_latencyStems_self name hstem

theorem NamesApart.nodup_stems {names : List String} {token : RunToken} {labels : List String}
    (h : NamesApart names token labels) :
    (names.flatMap traceStems ++ comparisonStems token labels).Nodup := by
  have hdisjoint : ∀ name ∈ names, ∀ other ∈ names, name ≠ other →
      List.Disjoint (traceStems name) (traceStems other) := by
    intro name hname other hother hne stem hstem hsame
    rcases mem_traceStems.1 hstem with hlatency | rfl
    · rcases mem_traceStems.1 hsame with hsecond | rfl
      · obtain ⟨first, rfl⟩ := exists_of_mem_latencyStems hlatency
        obtain ⟨second, heq⟩ := exists_of_mem_latencyStems hsecond
        exact hne (latencyStem_inj heq).1
      · exact h.latency stem hother name hname hlatency
    · rcases mem_traceStems.1 hsame with hsecond | heq
      · exact h.latency stem hname other hother hsecond
      · exact hne heq
  refine List.Nodup.append
    (List.nodup_flatMap.2 ⟨fun name _ => nodup_traceStems name, ?_⟩)
    (nodup_comparisonStems token labels) ?_
  · exact h.nodup.imp_of_mem fun hname hother hne => hdisjoint _ hname _ hother hne
  · intro stem hstem hsame
    obtain ⟨name, hname, hstem⟩ := List.mem_flatMap.1 hstem
    rcases mem_traceStems.1 hstem with hlatency | rfl
    · obtain ⟨first, rfl⟩ := exists_of_mem_latencyStems hlatency
      obtain ⟨second, heq⟩ := exists_of_mem_comparisonStems hsame
      exact latencyStem_ne_comparisonStem name token labels first second heq
    · exact h.comparison stem hname hsame

/-! ## Stems without a slash -/

theorem slash_not_mem_operation (operation : Operation) : '/' ∉ operation.name.toList := by
  cases operation <;> decide

theorem slash_not_mem_intercalate {separator : String} {labels : List String}
    (hseparator : '/' ∉ separator.toList) (h : ∀ label ∈ labels, '/' ∉ label.toList) :
    '/' ∉ (separator.intercalate labels).toList := by
  induction labels with
  | nil =>
    rw [String.intercalate_nil]
    exact List.not_mem_nil
  | cons label labels ih =>
    obtain ⟨hlabel, hrest⟩ := List.forall_mem_cons.1 h
    cases labels with
    | nil => rwa [String.intercalate_singleton]
    | cons next labels =>
      rw [String.intercalate_cons_cons, String.toList_append, String.toList_append]
      simp only [List.mem_append, not_or]
      exact ⟨⟨hlabel, hseparator⟩, ih hrest⟩

theorem slash_not_mem_traceStems {name : String} (h : '/' ∉ name.toList) :
    ∀ stem ∈ traceStems name, '/' ∉ stem.toList := by
  intro stem hstem
  rcases mem_traceStems.1 hstem with hlatency | rfl
  · obtain ⟨operation, rfl⟩ := exists_of_mem_latencyStems hlatency
    simp only [latencyStem, String.toList_append, List.mem_append, not_or]
    exact ⟨⟨⟨h, by decide⟩, slash_not_mem_operation operation⟩, by decide⟩
  · exact h

theorem slash_not_mem_comparisonStem {token : RunToken} {labels : List String}
    (htoken : '/' ∉ token.text.toList) (h : ∀ label ∈ labels, '/' ∉ label.toList)
    (operation : Operation) : '/' ∉ (comparisonStem token labels operation).toList := by
  have hlabels : '/' ∉ ("_vs_".intercalate labels).toList :=
    slash_not_mem_intercalate (by decide) h
  simp only [comparisonStem, String.toList_append, List.mem_append, not_or]
  exact ⟨⟨⟨⟨⟨htoken, by decide⟩, hlabels⟩, by decide⟩, slash_not_mem_operation operation⟩,
    by decide⟩

theorem head?_comparisonStem {token : RunToken} (labels : List String) (operation : Operation)
    (h : token.text.toList.head? ≠ some '/') :
    (comparisonStem token labels operation).toList.head? ≠ some '/' := by
  simp only [comparisonStem, String.toList_append]
  cases htoken : token.text.toList with
  | nil => exact fun hhead => absurd (Option.some.inj hhead : '_' = '/') (by decide)
  | cons c rest =>
    rw [htoken] at h
    exact h

/-! ## Files -/

/-- The name of the file of a chart. -/
def fileName (format : ChartFormat) (chart : Chart) : Bytes :=
  bytesOf (chart.stem ++ "." ++ format.name)

variable {format : ChartFormat} {other : Chart}

theorem path_eq_join (directory : Path) (format : ChartFormat) (chart : Chart) :
    chart.path directory format = directory.join ⟨chart.fileName format⟩ := rfl

theorem stem_eq_of_fileName_eq {stem : String}
    (h : chart.fileName format = bytesOf (stem ++ "." ++ format.name)) : chart.stem = stem := by
  have htext := bytesOf_injective h
  exact (String.append_left_inj _).1 ((String.append_left_inj _).1 htext)

theorem isName_fileName (h : '/' ∉ chart.stem.toList) : Path.IsName (chart.fileName format) := by
  have hlast : (chart.fileName format).getLast? = (bytesOf format.name).getLast? := by
    rw [fileName, bytesOf_append]
    cases format <;> exact List.getLast?_append_of_ne_nil _ (by decide)
  constructor
  case nonempty =>
    intro hnil
    rw [hnil] at hlast
    cases format <;> exact absurd hlast (by decide)
  case noSlash =>
    intro hslash
    have hmem := Utf8.mem_of_mem_encode hslash (by decide)
    rw [String.toList_append, String.toList_append, List.mem_append, List.mem_append] at hmem
    rcases hmem with (hstem | hdot) | hformat
    · exact h hstem
    · exact absurd hdot (by decide)
    · cases format <;> exact absurd hformat (by decide)
  case ne_here =>
    intro hhere
    rw [hhere] at hlast
    cases format <;> exact absurd hlast (by decide)
  case ne_above =>
    intro habove
    rw [habove] at hlast
    cases format <;> exact absurd hlast (by decide)

theorem isAbsolute_fileName (h : chart.stem.toList.head? ≠ some '/') :
    (⟨chart.fileName format⟩ : Path).isAbsolute = false := by
  apply beq_false_of_ne
  intro hslash
  have hhead := Utf8.head?_of_encode hslash (by decide)
  rw [String.toList_append, String.toList_append] at hhead
  cases hstem : chart.stem.toList with
  | nil =>
    rw [hstem] at hhead
    exact absurd (Option.some.inj hhead) (by decide)
  | cons c rest =>
    rw [hstem] at h hhead
    exact h hhead

theorem path_injective {directory : Path} (hchart : chart.stem.toList.head? ≠ some '/')
    (hother : other.stem.toList.head? ≠ some '/')
    (h : chart.path directory format = other.path directory format) : chart.stem = other.stem :=
  stem_eq_of_fileName_eq (Path.mk.inj
    (Path.join_injective (isAbsolute_fileName hchart) (isAbsolute_fileName hother) h))

end HeapLatency.Chart
