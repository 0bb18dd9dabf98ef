import HeapLatency.Proofs.Files.Missing

/-!
# What stands in the way of writing

Whether an output file can be written depends on its path and on what is along it, not on the
content. A path can be unusable in itself, it can lead to a directory, or a file can stand where a
directory is needed. With none of these the missing directories are made one after the other, and
the file is written.
-/

namespace HeapLatency

namespace FileTree

variable {tree before after : FileTree}

/-! ## Obstacles -/

/-- What stands in the way of writing to a path, whatever is to be written. -/
inductive Obstructed (tree : FileTree) (path : Path) : Prop
  /-- The path is empty, too long, or has a byte that no path has. -/
  | unusable (h : checkPath path ≠ .ok ())
  | directory (h : tree.isDirectory path = true)
  | slash (h : path.endsInSlash = true)
  | dots {names : List Bytes} {name : Bytes} (hcomponents : path.components = names ++ [name])
    (h : name = Path.here ∨ name = Path.above)
  | longName {name : Bytes} (hname : name ∈ path.components) (h : maxName < name.length)
  /-- A file stands where some of the names lead, and more names follow. -/
  | file {front rest : List Bytes} {start location : Location}
    (hcomponents : path.components = front ++ rest) (hrest : rest ≠ [])
    (hstart : tree.originAt path = .ok start) (hwalk : tree.walkAt start front = .ok location)
    (h : (tree.fileAt? location).isSome = true)

theorem Keeps.isDirectoryAt_of_fileAt? {touched : Location → Prop}
    (h : Keeps touched before after) {location : Location}
    (hfile : (before.fileAt? location).isSome = true) :
    after.isDirectoryAt location = false := by
  obtain ⟨content, hcontent⟩ := Option.isSome_iff_exists.1 hfile
  obtain ⟨other, hother, hkind, -⟩ := h.root location _ (fileAt?_eq_some_iff.1 hcontent)
  have hnode : after.node? location = some other := hother
  rw [FileTree.isDirectoryAt, hnode]
  exact hkind

theorem length_le_of_walkAt {location next : Location} {names : List Bytes}
    (h : tree.walkAt location names = .ok next) :
    ∀ name ∈ names, name.length ≤ maxName := by
  induction names generalizing location with
  | nil => exact fun name hname => absurd hname List.not_mem_nil
  | cons first names ih =>
    rw [walkAt] at h
    split at h
    · cases hfirst : tree.enterAt location first with
      | error fault =>
        rw [hfirst] at h
        cases h
      | ok mid =>
        rw [hfirst] at h
        refine List.forall_mem_cons.2 ⟨?_, ih h⟩
        by_cases hdots : first = Path.here ∨ first = Path.above
        · rcases hdots with rfl | rfl <;> decide
        · rw [not_or] at hdots
          exact Nat.not_lt.1 (length_le_of_enterAt hdots.1 hdots.2 hfirst)
    · cases h

/-- What leads to a file after a change that keeps what was there did not lead through a file. -/
theorem Written.not_obstructed {path : Path} {content : Bytes} {location : Location}
    (h : Written path content location before after) : ¬before.Obstructed path := by
  obtain ⟨hcheck, start, hstart, hwalk⟩ := resolve_eq_ok_iff.1 h.resolve
  obtain ⟨hends, names, name, -, -, hcomponents, hhere, habove, -⟩ :=
    exists_walk_of_file h.resolve h.fileAt
  rw [stepsOf, if_neg hends, List.append_nil] at hwalk
  intro hobstructed
  cases hobstructed with
  | unusable hcheck' => exact hcheck' hcheck
  | directory hdirectory =>
    obtain ⟨place, hplace, hthere⟩ := isDirectory_iff.1 hdirectory
    obtain rfl := Except.ok.inj ((h.keeps.resolve hplace).symm.trans h.resolve)
    have hfile := h.fileAt
    rw [fileAt?_of_isDirectoryAt (h.keeps.isDirectoryAt hthere)] at hfile
    cases hfile
  | slash hslash => exact hends hslash
  | dots hother hdots =>
    obtain ⟨-, hlast⟩ := List.append_inj' (hcomponents.symm.trans hother) rfl
    obtain rfl := List.head_eq_of_cons_eq hlast
    exact hdots.elim hhere habove
  | longName hname hlong => exact absurd hlong (Nat.not_lt.2 (length_le_of_walkAt hwalk _ hname))
  | file hparts hrest hbegin hfront hfile =>
    obtain rfl := Except.ok.inj ((h.keeps.originAt hbegin).symm.trans hstart)
    obtain ⟨next, rest, rfl⟩ := List.exists_cons_of_ne_nil hrest
    rw [hparts, walkAt_append, h.keeps.walkAt hfront] at hwalk
    have hfails : (if after.isDirectoryAt _ = true then _ else _) = _ := hwalk
    rw [if_neg (by rw [h.keeps.isDirectoryAt_of_fileAt? hfile]; exact Bool.false_ne_true)] at hfails
    cases hfails

theorem error_of_obstructed {path : Path} (h : tree.Obstructed path) (content : Bytes) :
    ∃ cause left, tree.writeOutput path content = (.error cause, left) := by
  rcases tree.writeOutput_outcome path content with ⟨cause, left, herror, -⟩ | ⟨_, _, -, hwritten⟩
  · exact ⟨cause, left, herror⟩
  · exact absurd h hwritten.not_obstructed

theorem isDirectoryAt_origin {path : Path} {start : Location}
    (hstart : tree.originAt path = .ok start) (hfile : tree.fileAt? start = none) :
    tree.isDirectoryAt start = true := by
  obtain ⟨hbegin, hsees⟩ := tree.map_origin path
  rw [hstart] at hbegin
  obtain ⟨trail, htrail, rfl⟩ := map_eq_ok.1 hbegin
  have hnode := (hsees trail htrail).goal
  rw [fileAt?, hnode] at hfile
  rw [isDirectoryAt, hnode]
  cases hgoal : tree.goal trail with
  | file content =>
    rw [hgoal] at hfile
    cases hfile
  | directory entries => rfl

section Unobstructed

variable {path : Path} {names : List Bytes} {name : Bytes} {start : Location}

/-- A path with nothing in its way leads from a directory along names that can be used. -/
structure Open (tree : FileTree) (path : Path) (start : Location) (names : List Bytes)
    (name : Bytes) : Prop where
  check : checkPath path = .ok ()
  components : path.components = names ++ [name]
  ends : path.endsInSlash = false
  usable : ∀ other ∈ names ++ [name], Usable other
  origin : tree.originAt path = .ok start
  directory : tree.isDirectoryAt start = true
  clear : tree.Clear start names
  notDirectory : tree.isDirectoryAt (start ++ names ++ [name]) = false

theorem clear_of_not_obstructed (hcomponents : path.components = names ++ [name])
    (husable : ∀ other ∈ names, Usable other) (hstart : tree.originAt path = .ok start)
    (h : ¬tree.Obstructed path) : tree.Clear start names := by
  rintro front ⟨rest, hrest⟩
  rw [← Option.not_isSome_iff_eq_none]
  intro hfile
  obtain ⟨content, hcontent⟩ := Option.isSome_iff_exists.1 hfile
  have hwalk : tree.walkAt start front = .ok (start ++ front) :=
    walkAt_of_isSome (fun other hother => husable other (hrest ▸ List.mem_append_left _ hother))
      (Option.isSome_of_eq_some (fileAt?_eq_some_iff.1 hcontent))
  have hparts : path.components = front ++ (rest ++ [name]) := by
    rw [hcomponents, ← hrest, List.append_assoc]
  exact h (.file hparts (List.concat_ne_nil _ _) hstart hwalk hfile)

theorem exists_open (hnames : ∀ other ∈ path.components, Path.IsName other)
    (hstart : tree.originAt path = .ok start) (h : ¬tree.Obstructed path) :
    ∃ names name, tree.Open path start names name := by
  have hcheck : checkPath path = .ok () := Decidable.byContradiction fun hnot => h (.unusable hnot)
  have hends : path.endsInSlash = false := by
    rw [← Bool.not_eq_true]
    exact fun hslash => h (.slash hslash)
  have husable : ∀ other ∈ path.components, Usable other := fun other hother =>
    ⟨hnames other hother, Nat.not_lt.1 fun hlong => h (.longName hother hlong)⟩
  obtain hnil | ⟨names, name, hcomponents⟩ := List.eq_nil_or_concat' path.components
  · -- the root is a directory
    have habsolute :=
      Path.isAbsolute_of_components_eq_nil (checkPath_eq_ok_iff.1 hcheck).2.1 hnil
    have hroot : tree.originAt path = .ok [] := if_pos habsolute
    exact absurd (.directory (isDirectory_iff.2
      ⟨_, resolve_of_isDirectoryAt hcheck hnil hroot (fun _ => nofun) rfl, rfl⟩)) h
  rw [hcomponents] at husable
  have husables : ∀ other ∈ names, Usable other := fun other hother =>
    husable other (List.mem_append_left _ hother)
  have hclear := clear_of_not_obstructed hcomponents husables hstart h
  refine ⟨names, name, hcheck, hcomponents, hends, husable, hstart,
    isDirectoryAt_origin hstart ?_, hclear, ?_⟩
  · have hfile := hclear [] List.nil_prefix
    rwa [List.append_nil] at hfile
  · rw [← Bool.not_eq_true]
    intro hthere
    rw [List.append_assoc] at hthere
    exact h (.directory (isDirectory_iff.2
      ⟨_, resolve_of_isDirectoryAt hcheck hcomponents hstart husable hthere, hthere⟩))

theorem Open.makeParent (h : tree.Open path start names name) :
    ∃ ready, tree.makeParent path = (.ok (), ready) ∧
      Deepened (start ++ names).length tree ready ∧
      ready.isDirectoryAt (start ++ names) = true := by
  have hplain : Path.here ∉ path.components := fun hmem =>
    (h.usable _ (h.components ▸ hmem)).ne_here rfl
  have husables : ∀ other ∈ names, Usable other := fun other hother =>
    h.usable other (List.mem_append_left _ hother)
  obtain ⟨parent, hparent, hparents, hbegins, habsolute, hends⟩ :=
    Path.parent?_of_components hplain h.ends h.components
  have hstart : tree.originAt parent = .ok start := by
    rw [originAt, habsolute]
    exact h.origin
  by_cases hsome : (tree.node? (start ++ names)).isSome = true
  · have hthere := h.clear.isDirectoryAt hsome
    refine ⟨tree, makeParent_of_parentReady ?_, Deepened.refl _ tree, hthere⟩
    intro other hother
    obtain rfl := Option.some.inj (hparent.symm.trans hother)
    by_cases hempty : parent.isEmpty = true
    · exact .inl hempty
    · have hcheck := checkPath_of_isPrefix h.check hbegins (eq_false_of_ne_true hempty)
      exact .inr (contains_iff.2
        ⟨_, resolve_of_isDirectoryAt hcheck hparents hstart husables hthere⟩)
  · have hnone := Option.not_isSome_iff_eq_none.1 hsome
    have hmissing := walkAt_of_none husables h.clear h.directory hnone
    have hne := ne_nil_of_node?_none h.directory hnone
    have hempty := isEmpty_of_components hparents hne
    have hnot : tree.contains parent = false := contains_eq_false hparents hstart hmissing
    obtain ⟨made, hmade, hdeepened, hthere⟩ :=
      makeChain_ancestorsUpTo (Nat.lt_succ_of_le (hparents ▸ parent.length_components_le)) hparents
        hne husables hends (checkPath_of_isPrefix h.check hbegins hempty) hstart h.directory h.clear
    refine ⟨made, ?_, hdeepened, hthere⟩
    rw [FileTree.makeParent, hparent]
    dsimp only
    rw [hempty, hnot, makeDirectories, Path.ancestors, hmade]
    rfl

theorem Open.write (h : tree.Open path start names name) {ready : FileTree}
    (hdeepened : Deepened (start ++ names).length tree ready)
    (hthere : ready.isDirectoryAt (start ++ names) = true) (content : Bytes) :
    ∃ after, ready.write path content = .ok after := by
  have hname : Usable name := h.usable name (List.mem_append_right _ List.mem_cons_self)
  have hwalk : ready.walkAt start names = .ok (start ++ names) :=
    walkAt_of_isSome (fun other hother => h.usable other (List.mem_append_left _ hother))
      (isSome_of_isDirectoryAt hthere)
  have hnew := resolveNew_of_walkAt h.check h.components (hdeepened.keeps.originAt h.origin) hwalk
    hthere hname.ne_here hname.ne_above
  have hfile : ready.isDirectoryAt (start ++ names ++ [name]) = false :=
    hdeepened.isDirectoryAt_eq_false h.notDirectory (by simp)
  refine ⟨_, map_eq_ok.2 ⟨start ++ names ++ [name], bind_eq_ok.2 ⟨_, hnew, ?_⟩, rfl⟩⟩
  dsimp only
  rw [h.ends, if_neg Bool.false_ne_true, if_neg (Nat.not_lt.2 hname.length_le)]
  exact if_neg (by rw [← isDirectoryAt, hfile]; exact Bool.false_ne_true)

/-- Along names that are no dots, a file can be written exactly where nothing stands in the way. -/
theorem writeOutput_eq_ok_iff (hnames : ∀ other ∈ path.components, Path.IsName other)
    (hstart : tree.originAt path = .ok start) (content : Bytes) :
    (∃ after, tree.writeOutput path content = (.ok (), after)) ↔ ¬tree.Obstructed path := by
  constructor
  · rintro ⟨after, hafter⟩ hobstructed
    obtain ⟨cause, left, herror⟩ := error_of_obstructed hobstructed content
    rw [hafter] at herror
    cases herror
  · intro h
    obtain ⟨names, name, hopen⟩ := exists_open hnames hstart h
    have hvalid : tree.validateOutput path = .ok () := by
      rw [validateOutput, (checkPath_eq_ok_iff.1 hopen.check).2.1, if_neg Bool.false_ne_true]
      exact if_neg fun hdirectory => h (.directory hdirectory)
    obtain ⟨ready, hready, hdeepened, hthere⟩ := hopen.makeParent
    obtain ⟨after, hafter⟩ := hopen.write hdeepened hthere content
    refine ⟨after, ?_⟩
    rw [writeOutput, hvalid, hready]
    dsimp only
    rw [hafter]

end Unobstructed

/-- Directories on the way are made, a longer file is replaced, and a file takes no names. -/
example :
    let path := Path.ofText "charts/run_a/malloc.svg"
    let first := (empty []).writeOutput path (bytesOf "<svg></svg>")
    let second := first.2.writeOutput path (bytesOf "<svg/>")
    first.1 = .ok () ∧ second.1 = .ok () ∧ second.2.read path = .ok (bytesOf "<svg/>") ∧
      (second.2.writeOutput (.ofText "charts/run_a/malloc.svg/x") []).1 =
        .error (.notWritten .notDirectory) := by
  decide +kernel

end FileTree

end HeapLatency
