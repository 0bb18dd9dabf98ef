import HeapLatency.Proofs.Command.Fatal
import HeapLatency.Proofs.Files.Paths
import HeapLatency.Proofs.Results
import Mathlib.Data.List.TakeWhile

/-!
# Run tokens and file names

The token of a trace is the first word of the name under which the trace is shown, so it goes by
the last component of the path and by nothing before or behind it. Traces are of one run when every
two of their tokens agree, for which it is enough to compare all of them with the first.
-/

namespace HeapLatency

namespace Path

/-! ## The same file name -/

/-- A path with other directories in front of it, or with something behind it that leads nowhere. -/
inductive Moved (path : Path) : Path → Prop
  | below (front : Bytes) : Moved path ⟨front ++ slash :: path.bytes⟩
  | joined (directory : Path) : Moved path (directory.join path)
  | endedBySlash : Moved path ⟨path.bytes ++ [slash]⟩
  | endedByHere : Moved path ⟨path.bytes ++ slash :: here⟩

theorem fileName?_eq_some_iff {path : Path} {name : Bytes} :
    path.fileName? = some name ↔
      (path.components.filter (· ≠ here)).getLast? = some name ∧ name ≠ above := by
  rw [fileName?, Option.filter_eq_some_iff, decide_eq_true_iff]

/-- What stands before the components of a path does not matter, nor do single dots behind them. -/
theorem fileName?_between (before : List Bytes) {path outer : Path} {name : Bytes}
    {behind : List Bytes} (h : path.fileName? = some name)
    (houter : outer.components = before ++ path.components ++ behind)
    (hbehind : ∀ component ∈ behind, component = here) : outer.fileName? = some name := by
  obtain ⟨hlast, habove⟩ := fileName?_eq_some_iff.1 h
  have hnothing : behind.filter (· ≠ here) = [] :=
    List.filter_eq_nil_iff.2 fun component hmem => by simpa using hbehind component hmem
  refine fileName?_eq_some_iff.2 ⟨?_, habove⟩
  rw [houter, List.filter_append, List.filter_append, hnothing, List.append_nil,
    List.getLast?_append, hlast, Option.some_or]

theorem fileName?_below (front : Bytes) {path : Path} {name : Bytes}
    (h : path.fileName? = some name) :
    (⟨front ++ slash :: path.bytes⟩ : Path).fileName? = some name :=
  fileName?_between _ h
    ((components_append_slash front path.bytes).trans (List.append_nil _).symm) nofun

theorem fileName?_joined (directory : Path) {path : Path} {name : Bytes}
    (h : path.fileName? = some name) : (directory.join path).fileName? = some name := by
  by_cases habsolute : path.isAbsolute = true
  · rwa [join, habsolute, Bool.true_or, if_pos rfl]
  · rcases join_cases directory with ⟨-, hjoin⟩ | ⟨front, -, hjoin⟩
    · rwa [hjoin]
    · rw [hjoin path (Bool.eq_false_iff.2 habsolute)]
      exact fileName?_below front h

theorem Moved.fileName? {path moved : Path} {name : Bytes} (h : Moved path moved)
    (hname : path.fileName? = some name) : moved.fileName? = some name := by
  cases h with
  | below front => exact fileName?_below front hname
  | joined directory => exact fileName?_joined directory hname
  | endedBySlash =>
    exact fileName?_between [] hname (components_append_slash path.bytes []) nofun
  | endedByHere =>
    exact fileName?_between [] hname (components_append_slash path.bytes here)
      (List.forall_mem_singleton.2 rfl)

theorem displayName_of_fileName? {path : Path} {name : Bytes} (h : path.fileName? = some name) :
    path.displayName = String.ofList (Utf8.decodeLenient name) := by
  rw [displayName, h]

end Path

namespace RunToken

/-! ## Tokens of names -/

theorem ofPath_eq (path : Path) : ofPath path = ofName path.displayName := by
  unfold ofPath Path.displayName
  cases path.fileName? <;> rfl

theorem toList_text_ofName (name : String) :
    (ofName name).text.toList = name.toList.takeWhile (· ≠ '_') :=
  String.toList_ofList

theorem underscore_not_mem_ofName (name : String) : '_' ∉ (ofName name).text.toList := by
  rw [toList_text_ofName]
  intro hmem
  have hne := List.mem_takeWhile_imp hmem
  simp at hne

/-- A name is its token, or goes on behind it with an underscore. -/
theorem eq_ofName_or (name : String) :
    name = (ofName name).text ∨ ∃ rest, name = (ofName name).text ++ "_" ++ rest := by
  have hsplit : name.toList.takeWhile (· ≠ '_') ++ name.toList.dropWhile (· ≠ '_') = name.toList :=
    List.takeWhile_append_dropWhile
  rw [← toList_text_ofName] at hsplit
  cases hrest : name.toList.dropWhile (· ≠ '_') with
  | nil =>
    rw [hrest, List.append_nil] at hsplit
    exact Or.inl (String.toList_inj.1 hsplit.symm)
  | cons c rest =>
    have hc : c = '_' := by
      have hhead := List.head?_dropWhile_not (· ≠ '_') name.toList
      rw [hrest] at hhead
      simpa using hhead
    refine Or.inr ⟨String.ofList rest, String.toList_inj.1 ?_⟩
    rw [hrest, hc] at hsplit
    simpa [String.toList_append] using hsplit.symm

/-- The token of a path is the part of its displayed name before the first underscore, all of it
where there is none. Both go by the file name alone: whatever directories stand in front of it, and
whether a slash or a single dot stands behind it, they are the same. -/
theorem token_begins_displayName :
    (∀ path : Path,
      (ofPath path).text.toList = path.displayName.toList.takeWhile (· ≠ '_') ∧
      '_' ∉ (ofPath path).text.toList ∧
      (path.displayName = (ofPath path).text ∨
        ∃ rest, path.displayName = (ofPath path).text ++ "_" ++ rest)) ∧
    ∀ (path other : Path) (name : Bytes), path.fileName? = some name →
      other.fileName? = some name ∨ path.Moved other →
        other.displayName = path.displayName ∧ ofPath other = ofPath path := by
  refine ⟨fun path => ?_, fun path other name hname hother => ?_⟩
  · rw [ofPath_eq]
    exact ⟨toList_text_ofName _, underscore_not_mem_ofName _, eq_ofName_or _⟩
  · have hsame : other.fileName? = some name := hother.elim id fun hmoved => hmoved.fileName? hname
    have hshown : other.displayName = path.displayName := by
      rw [Path.displayName_of_fileName? hsame, Path.displayName_of_fileName? hname]
    exact ⟨hshown, by rw [ofPath_eq, ofPath_eq, hshown]⟩

/-- A name with a byte that is no text, seen from a directory with an underscore, and with a single
dot behind it. -/
theorem token_begins_displayName_sample :
    let path : Path := ⟨[0x72, 0xFF, 0x5F, 0x61]⟩
    let below : Path := ⟨bytesOf "/data/run_2" ++ Path.slash :: path.bytes⟩
    let ended : Path := ⟨path.bytes ++ Path.slash :: Path.here⟩
    path.fileName? = some path.bytes ∧ path.displayName = "r\uFFFD_a" ∧
      (ofPath path).text = "r\uFFFD" ∧
      below.displayName = path.displayName ∧ ofPath below = ofPath path ∧
      ended.displayName = path.displayName ∧ ofPath ended = ofPath path := by
  intro path below ended
  have hname : path.fileName? = some path.bytes := by decide
  have hsame := token_begins_displayName.2
  obtain ⟨hbelow, hbelowToken⟩ := hsame path below path.bytes hname (.inr (.below _))
  obtain ⟨hended, hendedToken⟩ := hsame path ended path.bytes hname (.inr .endedByHere)
  exact ⟨hname, by decide, by decide, hbelow, hbelowToken, hended, hendedToken⟩

/-! ## Traces of one run -/

theorem differ_perm {traces reordered : List LabeledPath} (h : reordered.Perm traces) :
    Differ reordered ↔ Differ traces := by
  simp only [Differ, h.mem_iff]

theorem not_differ_iff {traces : List LabeledPath} :
    ¬Differ traces ↔
      ∀ one ∈ traces, ∀ other ∈ traces, ofPath one.path = ofPath other.path := by
  simp only [Differ, not_exists, not_and, not_not]

theorem verifySameRun_eq_error_iff {sameRun : Bool} {traces : List LabeledPath}
    {mismatch : RunMismatch} :
    verifySameRun sameRun traces = .error mismatch ↔
      (sameRun = true ∧ Differ traces) ∧ mismatch = ⟨labeled traces⟩ := by
  by_cases h : sameRun = true ∧ Differ traces
  · rw [and_iff_right h, h.1, verifySameRun_of_differ h.2, Except.error.injEq, eq_comm]
  · rw [verifySameRun_of_not_differ h]
    exact iff_of_false nofun fun hrefused => h hrefused.1

theorem verifySameRun_eq_ok_iff {sameRun : Bool} {traces : List LabeledPath} {token : RunToken} :
    verifySameRun sameRun traces = .ok token ↔
      ¬(sameRun = true ∧ Differ traces) ∧ token = ofFirst traces := by
  by_cases h : sameRun = true ∧ Differ traces
  · rw [h.1, verifySameRun_of_differ h.2]
    exact iff_of_false nofun fun haccepted => haccepted.1 ⟨rfl, h.2⟩
  · rw [verifySameRun_of_not_differ h, and_iff_right h, Except.ok.injEq, eq_comm]

theorem exists_verifySameRun_iff {sameRun : Bool} {traces : List LabeledPath} :
    (∃ token, verifySameRun sameRun traces = .ok token) ↔ ¬(sameRun = true ∧ Differ traces) := by
  simp only [verifySameRun_eq_ok_iff, exists_and_left, exists_eq, and_true]

/-- Without the check every list of traces is accepted, with it exactly those whose tokens agree
pairwise, in whatever order they come. What is accepted gets the token of the first trace, the empty
one if there is none; what is refused is told the labels and tokens of all traces in their order. -/
theorem verifySameRun_exact (traces : List LabeledPath) :
    (∃ token, verifySameRun false traces = .ok token) ∧
    ((∃ token, verifySameRun true traces = .ok token) ↔
      ∀ one ∈ traces, ∀ other ∈ traces, ofPath one.path = ofPath other.path) ∧
    (∀ (sameRun : Bool) (reordered : List LabeledPath), reordered.Perm traces →
      ((∃ token, verifySameRun sameRun reordered = .ok token) ↔
        ∃ token, verifySameRun sameRun traces = .ok token)) ∧
    (∀ (sameRun : Bool) (token : RunToken), verifySameRun sameRun traces = .ok token →
      token = (traces.head?.map fun trace => ofPath trace.path).getD ⟨""⟩) ∧
    ∀ (sameRun : Bool) (mismatch : RunMismatch), verifySameRun sameRun traces = .error mismatch →
      mismatch.tokens = traces.map fun trace => (trace.label, ofPath trace.path) := by
  refine ⟨?_, ?_, fun sameRun reordered h => ?_, fun sameRun token h => ?_,
    fun sameRun mismatch h => ?_⟩
  · exact exists_verifySameRun_iff.2 fun hasked => Bool.false_ne_true hasked.1
  · rw [exists_verifySameRun_iff, ← not_differ_iff, eq_self, true_and]
  · rw [exists_verifySameRun_iff, exists_verifySameRun_iff, differ_perm h]
  · exact (verifySameRun_eq_ok_iff.1 h).2
  · rw [(verifySameRun_eq_error_iff.1 h).2]
    rfl

/-- Two traces of one run and one of another, in two orders. -/
theorem verifySameRun_exact_sample :
    let traces : List LabeledPath := [⟨"tlsf", .ofText "a/run_tlsf.csv"⟩,
      ⟨"native", .ofText "run_native.csv/"⟩, ⟨"tlsf_ori", .ofText "run_2/late.csv"⟩]
    (∃ token, verifySameRun true (traces.take 2) = .ok token ∧ token = ⟨"run"⟩) ∧
    traces.reverse.Perm traces ∧
    ¬(∃ token, verifySameRun true traces.reverse = .ok token) ∧
    ∃ mismatch, verifySameRun true traces = .error mismatch ∧
      mismatch.tokens =
        [("tlsf", ⟨"run"⟩), ("native", ⟨"run"⟩), ("tlsf_ori", ⟨"late.csv"⟩)] := by
  intro traces
  have hreordered : traces.reverse.Perm traces := List.reverse_perm traces
  obtain ⟨-, hagree, horder, -, hrefused⟩ := verifySameRun_exact traces
  obtain ⟨-, hagreeTwo, -, hfirst, -⟩ := verifySameRun_exact (traces.take 2)
  obtain ⟨token, htoken⟩ := hagreeTwo.2 (by decide)
  have hdiffer : ¬∃ token, verifySameRun true traces = .ok token := by
    rw [hagree]
    decide
  obtain ⟨mismatch, hmismatch⟩ := exists_error_of_ne_ok fun token htoken => hdiffer ⟨token, htoken⟩
  refine ⟨⟨token, htoken, (hfirst _ _ htoken).trans (by decide)⟩, hreordered, ?_, mismatch,
    hmismatch, (hrefused _ _ hmismatch).trans (by decide)⟩
  rwa [horder true _ hreordered]

end RunToken

end HeapLatency
