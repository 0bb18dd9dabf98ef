import HeapLatency.Files.Output
import HeapLatency.Proofs.Files.Locations

/-!
# What changes keep

Making directories and writing files only adds to a tree: what stood at a location still stands
there, and no file but the one that is written has another content. So a path that led somewhere
still leads there.
-/

namespace HeapLatency

namespace Path

/-- The path above a path, the one above that, and so on. -/
def parents (path : Path) : List Path :=
  match path.parent? with
  | some parent => parent.ancestors
  | none => []

end Path

namespace Node

/-- At each location there is what was there, a file or a directory as before, and files where
nothing was touched have the same content. -/
def Keeps (touched : Location → Prop) (before after : Node) : Prop :=
  ∀ location node, at? location before = some node → ∃ other, at? location after = some other ∧
    other.isDirectory = node.isDirectory ∧ (¬touched location → other.content? = node.content?)

theorem Keeps.refl (touched : Location → Prop) (node : Node) : Keeps touched node node :=
  fun _ inner h => ⟨inner, h, rfl, fun _ => rfl⟩

theorem Keeps.trans {touched : Location → Prop} {before mid after : Node}
    (hfirst : Keeps touched before mid) (hsecond : Keeps touched mid after) :
    Keeps touched before after := by
  intro location node h
  obtain ⟨other, hother, hkind, hcontent⟩ := hfirst location node h
  obtain ⟨last, hlast, hlastKind, hlastContent⟩ := hsecond location other hother
  exact ⟨last, hlast, hlastKind.trans hkind, fun hnot => (hlastContent hnot).trans (hcontent hnot)⟩

theorem Keeps.mono {touched others : Location → Prop} {before after : Node}
    (h : Keeps touched before after) (hsome : ∀ location, touched location → others location) :
    Keeps others before after := by
  intro location node hnode
  obtain ⟨other, hother, hkind, hcontent⟩ := h location node hnode
  exact ⟨other, hother, hkind, fun hnot => hcontent fun htouched => hnot (hsome _ htouched)⟩

theorem at?_cons_directory (entries : Entries) (name : Bytes) (location : Location) :
    at? (name :: location) (.directory entries) =
      (Entries.node? name entries).bind (at? location) := rfl

theorem put_cons_directory (new : Node) (name : Bytes) (location : Location) (entries : Entries) :
    put new (name :: location) (.directory entries) =
      .directory (Entries.put name
        (put new location ((Entries.node? name entries).getD (.directory []))) entries) := rfl

/-- The way to a directory begins in one. -/
theorem exists_entries_of_at? {location : Location} {node : Node}
    (h : (at? location node).any isDirectory = true) : ∃ entries, node = .directory entries := by
  cases node with
  | file content => cases location <;> cases h
  | directory entries => exact ⟨entries, rfl⟩

theorem at?_put_self {directory : Location} {node : Node} (name : Bytes) (new : Node)
    (h : (at? directory node).any isDirectory = true) :
    at? (directory ++ [name]) (put new (directory ++ [name]) node) = some new := by
  induction directory generalizing node with
  | nil =>
    obtain ⟨entries, rfl⟩ := exists_entries_of_at? h
    rw [List.nil_append, put_cons_directory, at?_cons_directory, Entries.node?_put_self]
    rfl
  | cons first directory ih =>
    obtain ⟨entries, rfl⟩ := exists_entries_of_at? h
    rw [at?_cons_directory] at h
    rw [List.cons_append, put_cons_directory, at?_cons_directory, Entries.node?_put_self]
    cases hinner : Entries.node? first entries with
    | none =>
      rw [hinner] at h
      cases h
    | some inner =>
      rw [hinner] at h
      exact ih h

theorem keeps_of_files {old new : Node} (hold : old.isDirectory = false)
    (hnew : new.isDirectory = false) : Keeps (· = []) old new := by
  intro location node h
  cases location with
  | nil =>
    cases h
    exact ⟨new, rfl, hnew.trans hold.symm, fun hnot => absurd rfl hnot⟩
  | cons name location =>
    cases old with
    | file content => cases h
    | directory entries => cases hold

/-- In a directory only what the name stands for can change. -/
theorem keeps_directory {touched : Location → Prop} {name : Bytes} {entries : Entries}
    {new : Node} (h : ∀ old, Entries.node? name entries = some old →
      Keeps (fun location => touched (name :: location)) old new) :
    Keeps touched (.directory entries) (.directory (Entries.put name new entries)) := by
  intro location node hnode
  cases location with
  | nil =>
    cases hnode
    exact ⟨_, rfl, rfl, fun _ => rfl⟩
  | cons other location =>
    rw [at?_cons_directory] at hnode ⊢
    by_cases hother : other = name
    · subst hother
      rw [Entries.node?_put_self]
      obtain ⟨old, hold, hinner⟩ := Option.bind_eq_some_iff.1 hnode
      exact h old hold location node hinner
    · rw [Entries.node?_put_of_ne hother]
      exact ⟨node, hnode, rfl, fun _ => rfl⟩

theorem keeps_put {directory : Location} {name : Bytes} {node new : Node}
    (h : (at? directory node).any isDirectory = true)
    (hnew : ∀ old, at? (directory ++ [name]) node = some old →
      old.isDirectory = false ∧ new.isDirectory = false) :
    Keeps (· = directory ++ [name]) node (put new (directory ++ [name]) node) := by
  induction directory generalizing node with
  | nil =>
    obtain ⟨entries, rfl⟩ := exists_entries_of_at? h
    apply keeps_directory
    intro old hold
    have hfiles := hnew old (by rw [List.nil_append, at?_cons_directory, hold]; rfl)
    exact (keeps_of_files hfiles.1 hfiles.2).mono fun location hlocation => by
      rw [hlocation]
      rfl
  | cons first directory ih =>
    obtain ⟨entries, rfl⟩ := exists_entries_of_at? h
    apply keeps_directory
    intro old hold
    rw [hold, Option.getD_some]
    rw [at?_cons_directory, hold] at h
    rw [List.cons_append, at?_cons_directory, hold] at hnew
    exact (ih h hnew).mono fun location hlocation => by rw [hlocation, List.cons_append]

end Node

namespace FileTree

/-- No location is touched. -/
def Nowhere : Location → Prop := fun _ => False

/-- The nodes of a tree are kept, and the directory where relative paths begin. -/
structure Keeps (touched : Location → Prop) (before after : FileTree) : Prop where
  home : after.home = before.home
  root : Node.Keeps touched before.root after.root

variable {tree before mid after : FileTree} {touched : Location → Prop}

namespace Keeps

theorem refl (touched : Location → Prop) (tree : FileTree) : Keeps touched tree tree :=
  ⟨rfl, Node.Keeps.refl touched tree.root⟩

theorem trans (hfirst : Keeps touched before mid) (hsecond : Keeps touched mid after) :
    Keeps touched before after :=
  ⟨hsecond.home.trans hfirst.home, hfirst.root.trans hsecond.root⟩

theorem mono {others : Location → Prop} (h : Keeps touched before after)
    (hsome : ∀ location, touched location → others location) : Keeps others before after :=
  ⟨h.home, h.root.mono hsome⟩

theorem of_nowhere (h : Keeps Nowhere before after) : Keeps touched before after :=
  h.mono fun _ => False.elim

theorem isDirectoryAt (h : Keeps touched before after) {location : Location}
    (hdirectory : before.isDirectoryAt location = true) :
    after.isDirectoryAt location = true := by
  obtain ⟨node, hnode, hkind⟩ := isDirectoryAt_iff.1 hdirectory
  obtain ⟨other, hother, hsame, -⟩ := h.root location node hnode
  exact isDirectoryAt_iff.2 ⟨other, hother, hsame.trans hkind⟩

theorem isSome_node? (h : Keeps touched before after) {location : Location}
    (hsome : (before.node? location).isSome = true) :
    (after.node? location).isSome = true := by
  obtain ⟨node, hnode⟩ := Option.isSome_iff_exists.1 hsome
  obtain ⟨other, hother, -⟩ := h.root location node hnode
  exact Option.isSome_iff_exists.2 ⟨other, hother⟩

theorem fileAt? (h : Keeps touched before after) {location : Location} {content : Bytes}
    (hnot : ¬touched location) (hfile : before.fileAt? location = some content) :
    after.fileAt? location = some content := by
  rw [FileTree.fileAt?, Option.bind_eq_some_iff] at hfile ⊢
  obtain ⟨node, hnode, hcontent⟩ := hfile
  obtain ⟨other, hother, -, hsame⟩ := h.root location node hnode
  exact ⟨other, hother, (hsame hnot).trans hcontent⟩

theorem enterAt (h : Keeps touched before after) {location next : Location} {name : Bytes}
    (hnext : before.enterAt location name = .ok next) :
    after.enterAt location name = .ok next := by
  unfold FileTree.enterAt at hnext ⊢
  split
  · rwa [if_pos ‹_›] at hnext
  rw [if_neg ‹_›] at hnext
  split
  · rwa [if_pos ‹_›] at hnext
  rw [if_neg ‹_›] at hnext
  split
  · rwa [if_pos ‹_›] at hnext
  rw [if_neg ‹_›] at hnext
  split at hnext
  · rw [if_pos (h.isSome_node? ‹_›)]
    exact hnext
  · cases hnext

theorem walkAt (h : Keeps touched before after) {location next : Location} {names : List Bytes}
    (hnext : before.walkAt location names = .ok next) :
    after.walkAt location names = .ok next := by
  induction names generalizing location with
  | nil => exact hnext
  | cons name names ih =>
    rw [FileTree.walkAt] at hnext ⊢
    split at hnext
    · rw [if_pos (h.isDirectoryAt ‹_›)]
      cases hfirst : before.enterAt location name with
      | error fault =>
        rw [hfirst] at hnext
        cases hnext
      | ok first =>
        rw [hfirst] at hnext
        rw [h.enterAt hfirst]
        exact ih hnext
    · cases hnext

theorem originAt (h : Keeps touched before after) {path : Path} {location : Location}
    (hlocation : before.originAt path = .ok location) :
    after.originAt path = .ok location := by
  rw [FileTree.originAt] at hlocation ⊢
  split
  · rwa [if_pos ‹_›] at hlocation
  · rw [if_neg ‹_›] at hlocation
    rw [h.home]
    exact h.walkAt hlocation

theorem resolve (h : Keeps touched before after) {path : Path} {location : Location}
    (hlocation : before.resolve path = .ok location) : after.resolve path = .ok location := by
  obtain ⟨hcheck, start, hstart, hwalk⟩ := resolve_eq_ok_iff.1 hlocation
  exact resolve_eq_ok_iff.2 ⟨hcheck, start, h.originAt hstart, h.walkAt hwalk⟩

end Keeps

/-! ## Putting a node -/

theorem root_put {location : Location} (h : location ≠ []) (new : Node) :
    (tree.put location new).root = Node.put new location tree.root := by
  obtain ⟨name, names, rfl⟩ := List.exists_cons_of_ne_nil h
  rfl

theorem home_put (location : Location) (new : Node) :
    (tree.put location new).home = tree.home := by
  rw [put]
  cases Node.put new location tree.root <;> rfl

section Put

variable {directory : Location} {name : Bytes} {new : Node}

theorem node?_put_self (name : Bytes) (new : Node) (h : tree.isDirectoryAt directory = true) :
    (tree.put (directory ++ [name]) new).node? (directory ++ [name]) = some new := by
  rw [node?, root_put (List.concat_ne_nil name directory)]
  exact Node.at?_put_self name new h

theorem keeps_put (h : tree.isDirectoryAt directory = true)
    (hnew : ∀ old, tree.node? (directory ++ [name]) = some old →
      old.isDirectory = false ∧ new.isDirectory = false) :
    Keeps (· = directory ++ [name]) tree (tree.put (directory ++ [name]) new) := by
  refine ⟨home_put _ new, ?_⟩
  rw [root_put (List.concat_ne_nil name directory)]
  exact Node.keeps_put h hnew

theorem keeps_put_of_none (h : tree.isDirectoryAt directory = true)
    (hnone : tree.node? (directory ++ [name]) = none) :
    Keeps Nowhere tree (tree.put (directory ++ [name]) new) := by
  have hkeeps : Keeps (· = directory ++ [name]) tree (tree.put (directory ++ [name]) new) :=
    keeps_put h (by rw [hnone]; nofun)
  refine ⟨hkeeps.home, fun location node hnode => ?_⟩
  obtain ⟨other, hother, hkind, hcontent⟩ := hkeeps.root location node hnode
  refine ⟨other, hother, hkind, fun _ => hcontent ?_⟩
  rintro rfl
  rw [node?, hnode] at hnone
  cases hnone

theorem resolve_put {path : Path} (hresolve : tree.resolveNew path = .ok (directory, some name))
    (hlength : ¬maxName < name.length)
    (hkeeps : Keeps touched tree (tree.put (directory ++ [name]) new))
    (hends : path.endsInSlash = true → new.isDirectory = true) :
    (tree.put (directory ++ [name]) new).resolve path = .ok (directory ++ [name]) := by
  obtain ⟨hcheck, hdirectory, hhere, habove, names, start, hcomponents, hstart, hwalk⟩ :=
    resolveNew_eq_ok_some hresolve
  have hnode := node?_put_self name new hdirectory
  have henter : enterAt (tree.put (directory ++ [name]) new) directory name =
      .ok (directory ++ [name]) := by
    rw [enterAt, if_neg hhere, if_neg habove, if_neg hlength, hnode]
    rfl
  have hnew : walkAt (tree.put (directory ++ [name]) new) start path.components =
      .ok (directory ++ [name]) := by
    rw [hcomponents, walkAt_concat_eq_ok_iff]
    exact ⟨directory, hkeeps.walkAt hwalk, hkeeps.isDirectoryAt hdirectory, henter⟩
  refine resolve_eq_ok_iff.2 ⟨hcheck, start, hkeeps.originAt hstart, ?_⟩
  rw [stepsOf]
  split
  · exact walkAt_concat_eq_ok_iff.2
      ⟨_, hnew, isDirectoryAt_iff.2 ⟨new, hnode, hends ‹_›⟩, rfl⟩
  · rw [List.append_nil]
    exact hnew

end Put

/-! ## Making directories -/

theorem makeDirectory_eq_ok {path : Path} (h : tree.makeDirectory path = .ok after) :
    ∃ directory name, tree.resolveNew path = .ok (directory, some name) ∧
      ¬maxName < name.length ∧ tree.node? (directory ++ [name]) = none ∧
      after = tree.put (directory ++ [name]) (.directory []) := by
  rw [makeDirectory, bind_eq_ok] at h
  obtain ⟨⟨directory, name⟩, hnew, h⟩ := h
  cases name with
  | none => cases h
  | some name =>
    dsimp only at h
    split at h
    · cases h
    rename_i hlength
    split at h
    · cases h
    rename_i hnone
    cases h
    exact ⟨directory, name, hnew, hlength, Option.not_isSome_iff_eq_none.1 hnone, rfl⟩

theorem keeps_makeDirectory {path : Path} (h : tree.makeDirectory path = .ok after) :
    Keeps Nowhere tree after := by
  obtain ⟨directory, name, hnew, -, hnone, rfl⟩ := makeDirectory_eq_ok h
  obtain ⟨-, hdirectory, -⟩ := resolveNew_eq_ok_some hnew
  exact keeps_put_of_none hdirectory hnone

theorem resolve_makeDirectory {path : Path} (h : tree.makeDirectory path = .ok after) :
    ∃ directory name, tree.resolveNew path = .ok (directory, some name) ∧
      after = tree.put (directory ++ [name]) (.directory []) ∧
      after.resolve path = .ok (directory ++ [name]) := by
  have hkeeps := keeps_makeDirectory h
  obtain ⟨directory, name, hnew, hlength, -, rfl⟩ := makeDirectory_eq_ok h
  exact ⟨directory, name, hnew, rfl, resolve_put hnew hlength hkeeps fun _ => rfl⟩

/-- A relation that can be carried on, and that holds where a directory is made, holds where several
are made one by one. -/
theorem makeChain_induction {R : FileTree → FileTree → Prop} (hrefl : ∀ tree, R tree tree)
    (htrans : ∀ {before mid after}, R before mid → R mid after → R before after)
    {paths : List Path} (hmake : ∀ path ∈ paths, ∀ {before after},
      makeDirectory before path = .ok after → R before after) (tree : FileTree) :
    R tree (tree.makeChain paths).2 := by
  induction paths with
  | nil => exact hrefl tree
  | cons path above ih =>
    have habove : R tree (tree.makeChain above).2 :=
      ih fun other hother => hmake other (List.mem_cons_of_mem path hother)
    rw [makeChain]
    split
    · exact hrefl tree
    split
    · exact hmake path List.mem_cons_self ‹_›
    · split
      · rename_i left hleft
        rw [hleft] at habove
        exact habove
      · rename_i left hleft
        rw [hleft] at habove
        split
        · exact htrans habove (hmake path List.mem_cons_self ‹_›)
        · exact habove
    · exact hrefl tree

theorem makeParent_induction {R : FileTree → FileTree → Prop} (hrefl : ∀ tree, R tree tree)
    (htrans : ∀ {before mid after}, R before mid → R mid after → R before after) {path : Path}
    (hmake : ∀ made ∈ path.parents, ∀ {before after},
      makeDirectory before made = .ok after → R before after) (tree : FileTree) :
    R tree (tree.makeParent path).2 := by
  rw [makeParent]
  rw [Path.parents] at hmake
  cases hparent : path.parent? with
  | none => exact hrefl tree
  | some parent =>
    rw [hparent] at hmake
    have hmade : R tree (tree.makeDirectories parent).2 :=
      makeChain_induction hrefl htrans hmake tree
    dsimp only
    split
    · exact hrefl tree
    · split
      · rename_i made heq
        rw [heq] at hmade
        exact hmade
      · rename_i left heq
        rw [heq] at hmade
        exact hmade

theorem keeps_makeParent (path : Path) : Keeps Nowhere tree (tree.makeParent path).2 :=
  makeParent_induction (Keeps.refl Nowhere) Keeps.trans (fun _ _ => keeps_makeDirectory) tree

/-! ## Writing files -/

/-- After writing to a path the content is at a location where the path leads to, and no other file
has changed. -/
structure Written (path : Path) (content : Bytes) (location : Location)
    (before after : FileTree) : Prop where
  keeps : Keeps (· = location) before after
  resolve : after.resolve path = .ok location
  fileAt : after.fileAt? location = some content
  getLast : location.getLast? = path.components.getLast?

theorem Written.read {path : Path} {content : Bytes} {location : Location}
    (h : Written path content location before after) : after.read path = .ok content :=
  read_eq_ok_iff.2 ⟨location, h.resolve, h.fileAt⟩

theorem writeTarget_eq_ok {path : Path} {location : Location}
    (h : tree.writeTarget path = .ok location) :
    ∃ directory name, location = directory ++ [name] ∧
      tree.resolveNew path = .ok (directory, some name) ∧ ¬path.endsInSlash = true ∧
      ¬maxName < name.length ∧
      ∀ old, tree.node? (directory ++ [name]) = some old → old.isDirectory = false := by
  rw [writeTarget, bind_eq_ok] at h
  obtain ⟨⟨directory, name⟩, hnew, h⟩ := h
  cases name with
  | none => cases h
  | some name =>
    dsimp only at h
    split at h
    · cases h
    rename_i hends
    split at h
    · cases h
    rename_i hlength
    split at h
    · cases h
    rename_i hfile
    cases h
    refine ⟨directory, name, rfl, hnew, hends, hlength, fun old hold => ?_⟩
    rw [hold] at hfile
    exact eq_false_of_ne_true hfile

theorem written_of_write {path : Path} {content : Bytes}
    (h : tree.write path content = .ok after) :
    ∃ location, Written path content location tree after := by
  rw [write] at h
  cases htarget : tree.writeTarget path with
  | error fault =>
    rw [htarget] at h
    cases h
  | ok location =>
    rw [htarget] at h
    cases h
    obtain ⟨directory, name, rfl, hnew, hends, hlength, hfile⟩ := writeTarget_eq_ok htarget
    obtain ⟨-, hdirectory, -, -, names, -, hcomponents, -⟩ := resolveNew_eq_ok_some hnew
    have hkeeps : Keeps (· = directory ++ [name]) tree
        (tree.put (directory ++ [name]) (.file content)) :=
      keeps_put hdirectory fun old hold => ⟨hfile old hold, rfl⟩
    refine ⟨_, hkeeps, resolve_put hnew hlength hkeeps fun hslash => absurd hslash hends,
      fileAt?_eq_some_iff.2 (node?_put_self name (.file content) hdirectory), ?_⟩
    rw [hcomponents, List.getLast?_concat, List.getLast?_concat]

theorem writeOutput_outcome (tree : FileTree) (path : Path) (content : Bytes) :
    (∃ cause left, tree.writeOutput path content = (.error cause, left) ∧
      Keeps Nowhere tree left) ∨
    ∃ location after, tree.writeOutput path content = (.ok (), after) ∧
      Written path content location tree after := by
  unfold writeOutput
  cases tree.validateOutput path with
  | error cause => exact Or.inl ⟨cause, tree, rfl, Keeps.refl Nowhere tree⟩
  | ok u =>
    have hparent : Keeps Nowhere tree (tree.makeParent path).2 := keeps_makeParent path
    obtain ⟨outcome, ready, hready⟩ : ∃ outcome ready, tree.makeParent path = (outcome, ready) :=
      ⟨_, _, rfl⟩
    rw [hready] at hparent ⊢
    cases outcome with
    | error cause => exact Or.inl ⟨cause, ready, rfl, hparent⟩
    | ok u =>
      cases hwrite : ready.write path content with
      | error cause => exact Or.inl ⟨.notWritten cause, ready, by simp only [hwrite], hparent⟩
      | ok after =>
        obtain ⟨location, hwritten⟩ := written_of_write hwrite
        refine Or.inr ⟨location, after, by simp only [hwrite], ?_⟩
        exact { hwritten with keeps := hparent.of_nowhere.trans hwritten.keeps }

end FileTree

end HeapLatency
