import HeapLatency.Proofs.Files.Changes

/-!
# Writing what is there

A file that is written once more with the content that it has leaves the tree as it is, down to the
order of names in each directory. The directory above it was found or made by the first write, so
nothing has to be made for the second.
-/

namespace HeapLatency

/-! ## Putting what is there -/

theorem Entries.put_of_node? {name : Bytes} {node : Node} {entries : Entries}
    (h : node? name entries = some node) : put name node entries = entries := by
  induction entries with
  | nil => cases h
  | cons entry entries ih =>
    rw [node?] at h
    by_cases hname : entry.1 = name
    · rw [if_pos hname, Option.some.injEq] at h
      rw [put, if_pos hname, ← hname, ← h]
    · rw [if_neg hname] at h
      rw [put, if_neg hname, ih h]

theorem Node.put_of_at? {location : Location} {node inner : Node}
    (h : at? location node = some inner) : put inner location node = node := by
  induction location generalizing node with
  | nil => exact (Option.some.inj h).symm
  | cons name location ih =>
    cases node with
    | file content => cases h
    | directory entries =>
      rw [at?_cons_directory] at h
      obtain ⟨child, hchild, hinner⟩ := Option.bind_eq_some_iff.1 h
      rw [put_cons_directory, hchild, Option.getD_some, ih hinner, Entries.put_of_node? hchild]

namespace FileTree

variable {tree before after : FileTree} {path : Path} {content : Bytes}

theorem put_of_node? {location : Location} {node : Node} (h : tree.node? location = some node) :
    tree.put location node = tree := by
  rw [put, Node.put_of_at? h]
  rfl

/-! ## Paths that lead somewhere -/

theorem contains_iff :
    tree.contains path = true ↔ ∃ location, tree.resolve path = .ok location := by
  rw [contains, resolve]
  cases tree.trail path with
  | error fault =>
    refine iff_of_false Bool.false_ne_true ?_
    rintro ⟨location, h⟩
    cases h
  | ok trail => exact iff_of_true rfl ⟨_, rfl⟩

theorem contains_of_isDirectory (h : tree.isDirectory path = true) : tree.contains path = true := by
  rw [isDirectory] at h
  rw [contains]
  cases htrail : tree.trail path with
  | error fault =>
    rw [htrail] at h
    cases h
  | ok trail => rfl

theorem Keeps.contains {touched : Location → Prop} (h : Keeps touched before after)
    (hpath : before.contains path = true) : after.contains path = true := by
  obtain ⟨location, hresolve⟩ := contains_iff.1 hpath
  exact contains_iff.2 ⟨location, h.resolve hresolve⟩

theorem isDirectory_of_read (h : tree.read path = .ok content) : tree.isDirectory path = false := by
  obtain ⟨trail, htrail, h⟩ := bind_eq_ok.1 h
  rw [isDirectory, htrail]
  split at h
  · rename_i hgoal
    show (tree.goal trail).isDirectory = false
    rw [hgoal]
    rfl
  · cases h

/-! ## Directories that are there -/

/-- Nothing has to be made above a path. -/
def ParentReady (tree : FileTree) (path : Path) : Prop :=
  ∀ parent, path.parent? = some parent → parent.isEmpty = true ∨ tree.contains parent = true

theorem Keeps.parentReady {touched : Location → Prop} (h : Keeps touched before after)
    (hready : before.ParentReady path) : after.ParentReady path :=
  fun parent hparent => (hready parent hparent).imp_right h.contains

theorem makeParent_of_parentReady (h : tree.ParentReady path) :
    tree.makeParent path = (.ok (), tree) := by
  rw [makeParent]
  cases hparent : path.parent? with
  | none => rfl
  | some parent =>
    have hready : (parent.isEmpty || tree.contains parent) = true := by
      rw [Bool.or_eq_true]
      exact h parent hparent
    dsimp only
    rw [if_pos hready]

theorem contains_of_makeDirectory (h : tree.makeDirectory path = .ok after) :
    after.contains path = true := by
  obtain ⟨_, _, -, -, hresolve⟩ := resolve_makeDirectory h
  exact contains_iff.2 ⟨_, hresolve⟩

theorem contains_of_makeChain {above : List Path}
    (h : tree.makeChain (path :: above) = (.ok (), after)) :
    path.isEmpty = true ∨ after.contains path = true := by
  -- what could not be made may have been there all along
  have hfound {left : FileTree} {cause : Fault} (hleft :
      ((if left.isDirectory path then .ok () else .error cause : Except Fault Unit), left) =
        (.ok (), after)) : after.contains path = true := by
    split at hleft
    · rename_i hdirectory
      cases hleft
      exact contains_of_isDirectory hdirectory
    · cases hleft
  rw [makeChain] at h
  split at h
  · exact .inl ‹_›
  right
  split at h
  · cases h
    exact contains_of_makeDirectory ‹_›
  · split at h
    · cases h
    · split at h
      · cases h
        exact contains_of_makeDirectory ‹_›
      · exact hfound h
  · exact hfound h

theorem parentReady_of_makeParent (h : tree.makeParent path = (.ok (), after)) :
    after.ParentReady path := by
  intro parent hparent
  rw [makeParent, hparent] at h
  dsimp only at h
  split at h
  · rename_i hready
    cases h
    exact Bool.or_eq_true_iff.1 hready
  · split at h
    · rename_i made hmade
      cases h
      rw [makeDirectories, Path.ancestors, Path.ancestorsUpTo] at hmade
      exact contains_of_makeChain hmade
    · cases h

/-! ## Writing again -/

theorem resolveNew_of_walkAt {names : List Bytes} {name : Bytes} {start directory : Location}
    (hcheck : checkPath path = .ok ()) (hcomponents : path.components = names ++ [name])
    (hstart : tree.originAt path = .ok start) (hwalk : tree.walkAt start names = .ok directory)
    (hdirectory : tree.isDirectoryAt directory = true) (hhere : name ≠ Path.here)
    (habove : name ≠ Path.above) : tree.resolveNew path = .ok (directory, some name) := by
  obtain ⟨hbegin, hsees⟩ := tree.map_origin path
  rw [hstart] at hbegin
  obtain ⟨origin, horigin, rfl⟩ := map_eq_ok.1 hbegin
  obtain ⟨hend, hwalksees⟩ := (hsees origin horigin).walk names
  rw [hwalk] at hend
  obtain ⟨trail, htrail, rfl⟩ := map_eq_ok.1 hend
  rw [← (hwalksees trail htrail).isDirectory_goal] at hdirectory
  refine bind_eq_ok.2 ⟨(), hcheck, ?_⟩
  rw [hcomponents, List.getLast?_concat, List.dropLast_concat]
  refine bind_eq_ok.2 ⟨origin, horigin, bind_eq_ok.2 ⟨trail, htrail, ?_⟩⟩
  rw [if_pos hdirectory, if_neg (not_or.2 ⟨hhere, habove⟩)]
  rfl

theorem length_le_of_enterAt {location next : Location} {name : Bytes} (hhere : name ≠ Path.here)
    (habove : name ≠ Path.above) (h : tree.enterAt location name = .ok next) :
    ¬maxName < name.length := by
  rw [enterAt, if_neg hhere, if_neg habove] at h
  split at h
  · cases h
  · assumption

theorem writeTarget_of_read (h : tree.read path = .ok content) :
    ∃ location, tree.writeTarget path = .ok location ∧
      tree.node? location = some (.file content) := by
  obtain ⟨location, hresolve, hfile⟩ := read_eq_ok_iff.1 h
  obtain ⟨hends, names, name, start, directory, hcomponents, hhere, habove, hstart, hwalk,
    hdirectory, henter, rfl⟩ := exists_walk_of_file hresolve hfile
  have hnode := fileAt?_eq_some_iff.1 hfile
  have hnew := resolveNew_of_walkAt (resolve_eq_ok_iff.1 hresolve).1 hcomponents hstart hwalk
    hdirectory hhere habove
  have hplain : ¬(some (Node.file content)).any Node.isDirectory = true := Bool.false_ne_true
  refine ⟨directory ++ [name], bind_eq_ok.2 ⟨_, hnew, ?_⟩, hnode⟩
  dsimp only
  rw [if_neg hends, if_neg (length_le_of_enterAt hhere habove henter), hnode, if_neg hplain]
  rfl

/-- Writing the content that a file has changes nothing. -/
theorem write_of_read (h : tree.read path = .ok content) : tree.write path content = .ok tree := by
  obtain ⟨location, htarget, hnode⟩ := writeTarget_of_read h
  rw [write, htarget]
  exact congrArg Except.ok (put_of_node? hnode)

theorem writeOutput_of_read (hread : tree.read path = .ok content)
    (hready : tree.ParentReady path) : tree.writeOutput path content = (.ok (), tree) := by
  obtain ⟨location, hresolve, -⟩ := read_eq_ok_iff.1 hread
  have hempty := (checkPath_eq_ok_iff.1 (resolve_eq_ok_iff.1 hresolve).1).2.1
  have hvalid : tree.validateOutput path = .ok () := by
    rw [validateOutput, hempty, isDirectory_of_read hread]
    rfl
  rw [writeOutput, hvalid, makeParent_of_parentReady hready]
  dsimp only
  rw [write_of_read hread]

theorem parentReady_of_writeOutput (h : tree.writeOutput path content = (.ok (), after)) :
    after.ParentReady path := by
  rw [writeOutput] at h
  split at h
  · cases h
  split at h
  · cases h
  · rename_i ready hready
    split at h
    · rename_i written hwritten
      cases h
      obtain ⟨location, hwritten⟩ := written_of_write hwritten
      exact hwritten.keeps.parentReady (parentReady_of_makeParent hready)
    · cases h

end FileTree

end HeapLatency
