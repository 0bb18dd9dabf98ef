import HeapLatency.Files.Tree
import HeapLatency.Proofs.Files.Paths
import HeapLatency.Proofs.Results
import Mathlib.Data.List.Infix

/-!
# Walking by locations

A walk along a path carries the nodes on its way with it. Where it leads to can be told from the
locations alone, and what stands there is what the tree has at that location.
-/

namespace HeapLatency

/-! ## Nodes at locations -/

namespace Node

theorem at?_append (first second : Location) (node : Node) :
    at? (first ++ second) node = (at? first node).bind (at? second) := by
  induction first generalizing node with
  | nil => rfl
  | cons name first ih =>
    rw [List.cons_append, at?, at?]
    cases node.child? name with
    | none => rfl
    | some inner => exact ih inner

theorem at?_concat (location : Location) (name : Bytes) (node : Node) :
    at? (location ++ [name]) node = (at? location node).bind (child? name) := by
  rw [at?_append]
  cases at? location node with
  | none => rfl
  | some inner =>
    show (inner.child? name).bind (at? []) = inner.child? name
    cases inner.child? name <;> rfl

theorem isDirectory_of_child? {node inner : Node} {name : Bytes}
    (h : node.child? name = some inner) : node.isDirectory = true := by
  cases node with
  | file content => cases h
  | directory entries => rfl

end Node

namespace FileTree

/-- A directory stands at a location. -/
def isDirectoryAt (tree : FileTree) (location : Location) : Bool :=
  (tree.node? location).any Node.isDirectory

/-- The content of the file at a location. -/
def fileAt? (tree : FileTree) (location : Location) : Option Bytes :=
  (tree.node? location).bind Node.content?

variable {tree : FileTree}

theorem isDirectoryAt_iff {location : Location} :
    tree.isDirectoryAt location = true ↔
      ∃ node, tree.node? location = some node ∧ node.isDirectory = true := by
  rw [isDirectoryAt, Option.any_eq_true]

theorem fileAt?_eq_some_iff {location : Location} {content : Bytes} :
    tree.fileAt? location = some content ↔ tree.node? location = some (.file content) := by
  rw [fileAt?, Option.bind_eq_some_iff]
  constructor
  · rintro ⟨node, hnode, hcontent⟩
    cases node with
    | file other =>
      cases hcontent
      exact hnode
    | directory entries => cases hcontent
  · exact fun h => ⟨_, h, rfl⟩

theorem isDirectoryAt_dropLast {location : Location} (h : tree.isDirectoryAt location = true) :
    tree.isDirectoryAt location.dropLast = true := by
  rcases List.eq_nil_or_concat' location with rfl | ⟨init, name, rfl⟩
  · rfl
  · obtain ⟨node, hnode, -⟩ := isDirectoryAt_iff.1 h
    rw [node?, Node.at?_concat, Option.bind_eq_some_iff] at hnode
    obtain ⟨inner, hinner, hchild⟩ := hnode
    rw [List.dropLast_concat]
    exact isDirectoryAt_iff.2 ⟨inner, hinner, Node.isDirectory_of_child? hchild⟩

theorem fileAt?_of_isDirectoryAt {location : Location} (h : tree.isDirectoryAt location = true) :
    tree.fileAt? location = none := by
  obtain ⟨node, hnode, hdirectory⟩ := isDirectoryAt_iff.1 h
  rw [fileAt?, hnode]
  cases node with
  | file content => cases hdirectory
  | directory entries => rfl

/-! ## Walking -/

/-- Where a name leads to from a location. -/
def enterAt (tree : FileTree) (location : Location) (name : Bytes) : Except Fault Location :=
  if name = Path.here then .ok location
  else if name = Path.above then .ok location.dropLast
  else if maxName < name.length then .error .nameTooLong
  else if (tree.node? (location ++ [name])).isSome then .ok (location ++ [name])
  else .error .notFound

/-- Where names lead to from a location. -/
def walkAt (tree : FileTree) (location : Location) : List Bytes → Except Fault Location
  | [] => .ok location
  | name :: names =>
    if tree.isDirectoryAt location then
      match tree.enterAt location name with
      | .ok next => tree.walkAt next names
      | .error fault => .error fault
    else .error .notDirectory

/-- Where a path begins. -/
def originAt (tree : FileTree) (path : Path) : Except Fault Location :=
  if path.isAbsolute then .ok [] else tree.walkAt [] tree.home

/-- Every part of a trail shows what the tree has at its location. -/
def Sees (tree : FileTree) (trail : Trail) : Prop :=
  ∀ rest, rest <:+ trail → tree.node? (Trail.location rest) = some (tree.goal rest)

theorem location_cons (name : Bytes) (node : Node) (trail : Trail) :
    Trail.location ((name, node) :: trail) = Trail.location trail ++ [name] := by
  rw [Trail.location, List.map_cons, List.reverse_cons]
  rfl

theorem location_tail (trail : Trail) :
    Trail.location trail.tail = (Trail.location trail).dropLast := by
  rw [Trail.location, Trail.location, List.map_tail, List.dropLast_reverse]

theorem sees_nil : tree.Sees [] := by
  intro rest hrest
  rw [List.suffix_nil.1 hrest]
  rfl

theorem Sees.goal {trail : Trail} (h : tree.Sees trail) :
    tree.node? (Trail.location trail) = some (tree.goal trail) :=
  h trail (List.suffix_refl trail)

theorem Sees.tail {trail : Trail} (h : tree.Sees trail) : tree.Sees trail.tail :=
  fun rest hrest => h rest (hrest.trans (List.tail_suffix trail))

theorem Sees.cons {trail : Trail} {name : Bytes} {node : Node} (h : tree.Sees trail)
    (hchild : (tree.goal trail).child? name = some node) : tree.Sees ((name, node) :: trail) := by
  intro rest hrest
  rcases List.suffix_cons_iff.1 hrest with rfl | hrest
  · rw [location_cons, node?, Node.at?_concat, ← node?, h.goal]
    exact hchild
  · exact h rest hrest

theorem Sees.isDirectory_goal {trail : Trail} (h : tree.Sees trail) :
    (tree.goal trail).isDirectory = tree.isDirectoryAt (Trail.location trail) := by
  rw [isDirectoryAt, h.goal]
  rfl

theorem Sees.enter {trail : Trail} (h : tree.Sees trail) (name : Bytes) :
    (tree.enter trail name).map Trail.location = tree.enterAt (Trail.location trail) name ∧
      ∀ next, tree.enter trail name = .ok next → tree.Sees next := by
  unfold FileTree.enter enterAt
  split
  · refine ⟨rfl, fun next hnext => ?_⟩
    cases hnext
    exact h
  split
  · refine ⟨congrArg Except.ok (location_tail trail), fun next hnext => ?_⟩
    cases hnext
    exact h.tail
  split
  · exact ⟨rfl, nofun⟩
  · have hnode : tree.node? (Trail.location trail ++ [name]) =
        (tree.goal trail).child? name := by
      rw [node?, Node.at?_concat, ← node?, h.goal]
      rfl
    rw [hnode]
    cases hchild : (tree.goal trail).child? name with
    | none => exact ⟨rfl, nofun⟩
    | some node =>
      refine ⟨congrArg Except.ok (location_cons name node trail), fun next hnext => ?_⟩
      cases hnext
      exact h.cons hchild

theorem Sees.walk {trail : Trail} (h : tree.Sees trail) (names : List Bytes) :
    (tree.walk trail names).map Trail.location = tree.walkAt (Trail.location trail) names ∧
      ∀ next, tree.walk trail names = .ok next → tree.Sees next := by
  induction names generalizing trail with
  | nil =>
    refine ⟨rfl, fun next hnext => ?_⟩
    cases hnext
    exact h
  | cons name names ih =>
    obtain ⟨hlocation, hsees⟩ := h.enter name
    rw [FileTree.walk, walkAt, h.isDirectory_goal, ← hlocation]
    split
    · cases hnext : tree.enter trail name with
      | error fault => exact ⟨rfl, nofun⟩
      | ok next => exact ih (hsees next hnext)
    · exact ⟨rfl, nofun⟩

theorem walkAt_append (location : Location) (first second : List Bytes) :
    tree.walkAt location (first ++ second) =
      (tree.walkAt location first >>= fun next => tree.walkAt next second) := by
  induction first generalizing location with
  | nil => rfl
  | cons name first ih =>
    rw [List.cons_append, walkAt, walkAt]
    split
    · cases tree.enterAt location name with
      | error fault => rfl
      | ok next => exact ih next
    · rfl

theorem walkAt_singleton (location : Location) (name : Bytes) :
    tree.walkAt location [name] =
      if tree.isDirectoryAt location then tree.enterAt location name
      else .error .notDirectory := by
  rw [walkAt]
  split
  · cases tree.enterAt location name <;> rfl
  · rfl

theorem walkAt_concat_eq_ok_iff {location next : Location} {names : List Bytes} {name : Bytes} :
    tree.walkAt location (names ++ [name]) = .ok next ↔
      ∃ mid, tree.walkAt location names = .ok mid ∧ tree.isDirectoryAt mid = true ∧
        tree.enterAt mid name = .ok next := by
  rw [walkAt_append, bind_eq_ok]
  constructor
  · rintro ⟨mid, hmid, hnext⟩
    rw [walkAt_singleton] at hnext
    split at hnext
    · rename_i hdirectory
      exact ⟨mid, hmid, hdirectory, hnext⟩
    · cases hnext
  · rintro ⟨mid, hmid, hdirectory, hnext⟩
    exact ⟨mid, hmid, by rw [walkAt_singleton, if_pos hdirectory, hnext]⟩

/-! ## Paths -/

theorem map_origin (path : Path) :
    (tree.origin path).map Trail.location = tree.originAt path ∧
      ∀ trail, tree.origin path = .ok trail → tree.Sees trail := by
  unfold origin originAt
  split
  · refine ⟨rfl, fun trail htrail => ?_⟩
    cases htrail
    exact sees_nil
  · exact sees_nil.walk tree.home

/-- The names that are looked up along a path. -/
def stepsOf (path : Path) : List Bytes :=
  path.components ++ if path.endsInSlash then [Path.here] else []

theorem resolve_eq (path : Path) :
    tree.resolve path = (do
      checkPath path
      tree.walkAt (← tree.originAt path) (stepsOf path)) := by
  obtain ⟨horigin, hsees⟩ := tree.map_origin path
  rw [resolve, trail, ← horigin]
  cases checkPath path with
  | error fault => rfl
  | ok u =>
    cases hstart : tree.origin path with
    | error fault => rfl
    | ok start => exact ((hsees start hstart).walk (stepsOf path)).1

theorem sees_of_trail {path : Path} {trail : Trail} (h : tree.trail path = .ok trail) :
    tree.Sees trail := by
  rw [FileTree.trail, bind_eq_ok] at h
  obtain ⟨-, -, h⟩ := h
  obtain ⟨start, hstart, h⟩ := bind_eq_ok.1 h
  exact (((tree.map_origin path).2 start hstart).walk (stepsOf path)).2 trail h

theorem resolve_eq_ok_iff {path : Path} {location : Location} :
    tree.resolve path = .ok location ↔
      checkPath path = .ok () ∧ ∃ start, tree.originAt path = .ok start ∧
        tree.walkAt start (stepsOf path) = .ok location := by
  rw [resolve_eq, bind_eq_ok]
  constructor
  · rintro ⟨u, hcheck, h⟩
    exact ⟨hcheck, bind_eq_ok.1 h⟩
  · rintro ⟨hcheck, h⟩
    exact ⟨(), hcheck, bind_eq_ok.2 h⟩

theorem read_eq_ok_iff {path : Path} {content : Bytes} :
    tree.read path = .ok content ↔
      ∃ location, tree.resolve path = .ok location ∧ tree.fileAt? location = some content := by
  constructor
  · intro h
    obtain ⟨trail, htrail, h⟩ := bind_eq_ok.1 h
    refine ⟨Trail.location trail, bind_eq_ok.2 ⟨trail, htrail, rfl⟩, ?_⟩
    rw [fileAt?_eq_some_iff, (sees_of_trail htrail).goal]
    split at h
    · rename_i hgoal
      cases h
      rw [hgoal]
    · cases h
  · rintro ⟨location, hlocation, hfile⟩
    obtain ⟨trail, htrail, hlocation⟩ := bind_eq_ok.1 hlocation
    cases hlocation
    rw [fileAt?_eq_some_iff, (sees_of_trail htrail).goal] at hfile
    refine bind_eq_ok.2 ⟨trail, htrail, ?_⟩
    rw [Option.some.inj hfile]
    rfl

/-- What is known of a path where something new can stand. -/
theorem resolveNew_eq_ok_some {path : Path} {directory : Location} {name : Bytes}
    (h : tree.resolveNew path = .ok (directory, some name)) :
    checkPath path = .ok () ∧ tree.isDirectoryAt directory = true ∧ name ≠ Path.here ∧
      name ≠ Path.above ∧ ∃ names start, path.components = names ++ [name] ∧
        tree.originAt path = .ok start ∧ tree.walkAt start names = .ok directory := by
  rw [resolveNew, bind_eq_ok] at h
  obtain ⟨u, hcheck, h⟩ := h
  rcases List.eq_nil_or_concat' path.components with hnil | ⟨names, last, hcomponents⟩
  · rw [hnil] at h
    cases h
  · rw [hcomponents, List.getLast?_concat, List.dropLast_concat] at h
    obtain ⟨start, hstart, h⟩ := bind_eq_ok.1 h
    obtain ⟨trail, htrail, h⟩ := bind_eq_ok.1 h
    obtain ⟨horigin, hsees⟩ := tree.map_origin path
    obtain ⟨hwalk, hwalksees⟩ := (hsees start hstart).walk names
    rw [hstart] at horigin
    rw [htrail] at hwalk
    rw [(hwalksees trail htrail).isDirectory_goal] at h
    split at h
    · rename_i hdirectory
      obtain ⟨rfl, hname⟩ := Prod.mk.inj (pure_eq_ok.1 h)
      split at hname
      · cases hname
      · rename_i hdots
        cases hname
        rw [not_or] at hdots
        exact ⟨hcheck, hdirectory, hdots.1, hdots.2, names, _, hcomponents, horigin.symm,
          hwalk.symm⟩
    · cases h

theorem checkPath_eq_ok_iff {path : Path} :
    checkPath path = .ok () ↔
      0 ∉ path.bytes ∧ path.isEmpty = false ∧ path.bytes.length ≤ maxPath := by
  rw [checkPath]
  split
  · rename_i hnul
    exact iff_of_false nofun fun h => h.1 (List.contains_iff_mem.1 hnul)
  rename_i hnul
  split
  · rename_i hempty
    exact iff_of_false nofun fun h => by rw [hempty] at h; cases h.2.1
  rename_i hempty
  split
  · exact iff_of_false nofun fun h => absurd h.2.2 (by omega)
  · exact iff_of_true rfl ⟨fun h => hnul (List.contains_iff_mem.2 h), eq_false_of_ne_true hempty,
      by omega⟩

theorem eq_concat_of_enterAt {location next : Location} {name : Bytes} (hhere : name ≠ Path.here)
    (habove : name ≠ Path.above) (h : tree.enterAt location name = .ok next) :
    next = location ++ [name] := by
  rw [enterAt, if_neg hhere, if_neg habove] at h
  split at h
  · cases h
  split at h
  · exact (Except.ok.inj h).symm
  · cases h

/-- What a name stands for in a directory is right below where the directory is. -/
theorem resolve_join {directory : Path} {name : Bytes} {location : Location}
    (hname : Path.IsName name) (h : tree.resolve (directory.join ⟨name⟩) = .ok location) :
    ∃ above, location = above ++ [name] ∧
      (directory.isEmpty = false → tree.resolve directory = .ok above) := by
  obtain ⟨hcheck, start, hstart, hwalk⟩ := resolve_eq_ok_iff.1 h
  rw [stepsOf, Path.components_join hname.nonempty hname.noSlash,
    Path.endsInSlash_join hname.nonempty hname.noSlash, if_neg Bool.false_ne_true,
    List.append_nil] at hwalk
  obtain ⟨above, habove, hdirectory, henter⟩ := walkAt_concat_eq_ok_iff.1 hwalk
  refine ⟨above, eq_concat_of_enterAt hname.ne_here hname.ne_above henter,
    fun hnonempty => resolve_eq_ok_iff.2 ⟨?_, start, ?_, ?_⟩⟩
  · obtain ⟨hnul, -, hlength⟩ := checkPath_eq_ok_iff.1 hcheck
    have hbytes : directory.bytes.Sublist (directory.join ⟨name⟩).bytes :=
      Path.bytes_sublist_join (Path.isAbsolute_of_noSlash hname.noSlash)
    exact checkPath_eq_ok_iff.2
      ⟨fun hmem => hnul (hbytes.subset hmem), hnonempty, hbytes.length_le.trans hlength⟩
  · rw [← hstart, originAt, originAt, Path.isAbsolute_join hname.noSlash]
  · rw [stepsOf]
    split
    · exact walkAt_concat_eq_ok_iff.2 ⟨above, habove, hdirectory, rfl⟩
    · rw [List.append_nil]
      exact habove

theorem isDirectoryAt_of_walkAt_dots {location next : Location} {names : List Bytes}
    {name : Bytes} (h : tree.walkAt location (names ++ [name]) = .ok next)
    (hdots : name = Path.here ∨ name = Path.above) : tree.isDirectoryAt next = true := by
  obtain ⟨mid, -, hdirectory, hnext⟩ := walkAt_concat_eq_ok_iff.1 h
  rcases hdots with rfl | rfl
  · cases hnext
    exact hdirectory
  · cases hnext
    exact isDirectoryAt_dropLast hdirectory

/-- A path that leads to a file leads to a directory first, and ends in the name that the file has
there. -/
theorem exists_walk_of_file {path : Path} {location : Location} {content : Bytes}
    (hresolve : tree.resolve path = .ok location) (hfile : tree.fileAt? location = some content) :
    ¬path.endsInSlash = true ∧ ∃ names name start directory, path.components = names ++ [name] ∧
      name ≠ Path.here ∧ name ≠ Path.above ∧ tree.originAt path = .ok start ∧
      tree.walkAt start names = .ok directory ∧ tree.isDirectoryAt directory = true ∧
      tree.enterAt directory name = .ok location ∧ location = directory ++ [name] := by
  obtain ⟨hcheck, start, hstart, hwalk⟩ := resolve_eq_ok_iff.1 hresolve
  have hplain : tree.isDirectoryAt location ≠ true := by
    intro hdirectory
    rw [fileAt?_of_isDirectoryAt hdirectory] at hfile
    cases hfile
  rw [stepsOf] at hwalk
  split at hwalk
  · exact absurd (isDirectoryAt_of_walkAt_dots hwalk (Or.inl rfl)) hplain
  rename_i hends
  rw [List.append_nil] at hwalk
  refine ⟨hends, ?_⟩
  rcases List.eq_nil_or_concat' path.components with hnil | ⟨names, last, hcomponents⟩
  · have hempty : path.isEmpty = false := (checkPath_eq_ok_iff.1 hcheck).2.1
    rw [originAt, if_pos (Path.isAbsolute_of_components_eq_nil hempty hnil)] at hstart
    cases hstart
    rw [hnil] at hwalk
    cases hwalk
    exact absurd rfl hplain
  · rw [hcomponents] at hwalk
    by_cases hdots : last = Path.here ∨ last = Path.above
    · exact absurd (isDirectoryAt_of_walkAt_dots hwalk hdots) hplain
    · obtain ⟨hhere, habove⟩ := not_or.1 hdots
      obtain ⟨directory, hdirectory, hkind, henter⟩ := walkAt_concat_eq_ok_iff.1 hwalk
      exact ⟨names, last, start, directory, hcomponents, hhere, habove, hstart, hdirectory, hkind,
        henter, eq_concat_of_enterAt hhere habove henter⟩

theorem exists_name_of_file {path : Path} {location : Location} {content : Bytes}
    (hresolve : tree.resolve path = .ok location) (hfile : tree.fileAt? location = some content) :
    ∃ name, path.fileName? = some name ∧ location.getLast? = some name := by
  obtain ⟨-, names, name, _, directory, hcomponents, hhere, habove, -, -, -, -, rfl⟩ :=
    exists_walk_of_file hresolve hfile
  exact ⟨name, Path.fileName?_of_components hcomponents hhere habove, List.getLast?_concat⟩

theorem exists_fileName?_of_read {path : Path} {content : Bytes}
    (h : tree.read path = .ok content) : ∃ name, path.fileName? = some name := by
  obtain ⟨location, hresolve, hfile⟩ := read_eq_ok_iff.1 h
  obtain ⟨name, hname, -⟩ := exists_name_of_file hresolve hfile
  exact ⟨name, hname⟩

end FileTree

end HeapLatency
