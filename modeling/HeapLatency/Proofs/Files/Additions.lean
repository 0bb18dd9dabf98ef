import HeapLatency.Proofs.Files.Changes
import HeapLatency.Report.Document

/-!
# What writing adds

Besides the file itself, writing to a path adds only what the path needs: directories that stand
above it, each of them where one of its parents leads. When it fails, some of these directories may
have been made, and that is all.
-/

namespace HeapLatency

namespace Node

/-- Where a node without anything below it is put, nothing else is added. -/
theorem isSome_of_at?_put {directory location : Location} {name : Bytes} {node new inner : Node}
    (h : (at? directory node).any isDirectory = true) (hnew : ∀ below, new.child? below = none)
    (hinner : at? location (put new (directory ++ [name]) node) = some inner) :
    location = directory ++ [name] ∨ (at? location node).isSome = true := by
  induction directory generalizing node location with
  | nil =>
    obtain ⟨entries, rfl⟩ := exists_entries_of_at? h
    rw [List.nil_append, put_cons_directory] at hinner
    cases location with
    | nil => exact .inr rfl
    | cons other location =>
      rw [at?_cons_directory] at hinner ⊢
      by_cases hother : other = name
      · rw [hother, Entries.node?_put_self] at hinner
        cases location with
        | nil => exact .inl (by rw [hother, List.nil_append])
        | cons below location =>
          have hbelow : (new.child? below).bind (at? location) = some inner := hinner
          rw [hnew below] at hbelow
          cases hbelow
      · rw [Entries.node?_put_of_ne hother] at hinner
        exact .inr (Option.isSome_of_eq_some hinner)
  | cons first directory ih =>
    obtain ⟨entries, rfl⟩ := exists_entries_of_at? h
    rw [List.cons_append, put_cons_directory] at hinner
    cases location with
    | nil => exact .inr rfl
    | cons other location =>
      rw [at?_cons_directory] at h hinner ⊢
      by_cases hother : other = first
      · cases hfirst : Entries.node? first entries with
        | none =>
          rw [hfirst] at h
          cases h
        | some child =>
          rw [hfirst] at h hinner
          rw [hother, Entries.node?_put_self] at hinner
          rw [hother, hfirst]
          refine (ih h hinner).imp_left fun hlocation => ?_
          rw [hlocation, List.cons_append]
      · rw [Entries.node?_put_of_ne hother] at hinner
        exact .inr (Option.isSome_of_eq_some hinner)

end Node

namespace FileTree

variable {tree before mid after : FileTree} {touched : Location → Prop} {paths : List Path}

/-- A change within bounds: what there was is kept, and all that is new is touched or is a directory
where one of some paths leads. -/
structure Confined (touched : Location → Prop) (paths : List Path) (before after : FileTree) :
    Prop where
  keeps : Keeps touched before after
  added : ∀ location node, before.node? location = none → after.node? location = some node →
    touched location ∨
      node.isDirectory = true ∧ ∃ path ∈ paths, after.resolve path = .ok location

namespace Confined

theorem refl (touched : Location → Prop) (paths : List Path) (tree : FileTree) :
    Confined touched paths tree tree where
  keeps := Keeps.refl touched tree
  added location node hnone hnode := by
    rw [hnone] at hnode
    cases hnode

theorem trans (hfirst : Confined touched paths before mid)
    (hsecond : Confined touched paths mid after) : Confined touched paths before after where
  keeps := hfirst.keeps.trans hsecond.keeps
  added location node hnone hnode := by
    cases hmid : mid.node? location with
    | none => exact hsecond.added location node hmid hnode
    | some made =>
      -- what the first change added is still there, and the same path leads to it
      refine (hfirst.added location made hnone hmid).imp_right ?_
      rintro ⟨hdirectory, path, hpath, hresolve⟩
      obtain ⟨other, hother, hkind, -⟩ := hsecond.keeps.root location made hmid
      obtain rfl : other = node := Option.some.inj (hother.symm.trans hnode)
      exact ⟨hkind.trans hdirectory, path, hpath, hsecond.keeps.resolve hresolve⟩

theorem of_nowhere (h : Confined Nowhere paths before after) :
    Confined touched paths before after where
  keeps := h.keeps.of_nowhere
  added location node hnone hnode := (h.added location node hnone hnode).imp_left False.elim

end Confined

/-! ## Making directories -/

theorem isSome_of_node?_put {directory location : Location} {name : Bytes} {new node : Node}
    (h : tree.isDirectoryAt directory = true) (hnew : ∀ below, new.child? below = none)
    (hnode : (tree.put (directory ++ [name]) new).node? location = some node) :
    location = directory ++ [name] ∨ (tree.node? location).isSome = true := by
  rw [node?, root_put (List.concat_ne_nil name directory)] at hnode
  exact Node.isSome_of_at?_put h hnew hnode

theorem confined_makeDirectory {path : Path} (hpath : path ∈ paths)
    (h : tree.makeDirectory path = .ok after) : Confined Nowhere paths tree after := by
  refine ⟨keeps_makeDirectory h, fun location node hnone hnode => .inr ?_⟩
  obtain ⟨directory, name, hnew, rfl, hresolve⟩ := resolve_makeDirectory h
  obtain ⟨-, hdirectory, -⟩ := resolveNew_eq_ok_some hnew
  rcases isSome_of_node?_put hdirectory (fun below => rfl) hnode with rfl | hsome
  · have hself := node?_put_self name (.directory []) hdirectory
    obtain rfl : Node.directory [] = node := Option.some.inj (hself.symm.trans hnode)
    exact ⟨rfl, path, hpath, hresolve⟩
  · rw [hnone] at hsome
    cases hsome

theorem confined_makeParent (path : Path) :
    Confined Nowhere path.parents tree (tree.makeParent path).2 :=
  makeParent_induction (Confined.refl Nowhere path.parents) Confined.trans
    (fun _ hmade => confined_makeDirectory hmade) tree

/-! ## Writing files -/

/-- A write that keeps to its path: the content is where the path leads, or no file has changed, and
all that is new besides are parents of the path. -/
def KeepsToPath (tree : FileTree) (path : Path) (content : Bytes) :
    Except OutputError Unit × FileTree → Prop
  | (.ok (), after) => ∃ location, after.resolve path = .ok location ∧
      after.read path = .ok content ∧ Confined (· = location) path.parents tree after
  | (.error _, left) => Confined Nowhere path.parents tree left

theorem confined_write (paths : List Path) {path : Path} {content : Bytes}
    (h : tree.write path content = .ok after) :
    ∃ location, after.resolve path = .ok location ∧ after.read path = .ok content ∧
      Confined (· = location) paths tree after := by
  obtain ⟨location, hwritten⟩ := written_of_write h
  refine ⟨location, hwritten.resolve, hwritten.read, hwritten.keeps, ?_⟩
  intro other node hnone hnode
  left
  rw [write] at h
  cases htarget : tree.writeTarget path with
  | error fault =>
    rw [htarget] at h
    cases h
  | ok target =>
    rw [htarget] at h
    cases h
    obtain ⟨directory, name, rfl, hresolve, hends, hlength, -⟩ := writeTarget_eq_ok htarget
    obtain ⟨-, hdirectory, -⟩ := resolveNew_eq_ok_some hresolve
    rcases isSome_of_node?_put hdirectory (fun below => rfl) hnode with rfl | hsome
    · have hsame := resolve_put hresolve hlength hwritten.keeps fun hslash => absurd hslash hends
      rw [hwritten.resolve] at hsame
      exact (Except.ok.inj hsame).symm
    · rw [hnone] at hsome
      cases hsome

theorem writeOutput_keepsToPath (tree : FileTree) (path : Path) (content : Bytes) :
    KeepsToPath tree path content (tree.writeOutput path content) := by
  unfold writeOutput
  cases tree.validateOutput path with
  | error cause => exact Confined.refl Nowhere _ tree
  | ok u =>
    have hparent : Confined Nowhere path.parents tree (tree.makeParent path).2 :=
      confined_makeParent path
    obtain ⟨outcome, ready, hready⟩ : ∃ outcome ready, tree.makeParent path = (outcome, ready) :=
      ⟨_, _, rfl⟩
    rw [hready] at hparent ⊢
    cases outcome with
    | error cause => exact hparent
    | ok u =>
      dsimp only
      cases hwrite : ready.write path content with
      | error cause => exact hparent
      | ok after =>
        obtain ⟨location, hresolve, hread, hconfined⟩ := confined_write path.parents hwrite
        exact ⟨location, hresolve, hread, hparent.of_nowhere.trans hconfined⟩

/-- Whether an output file is written, text of any kind or the statistics of a run, or the attempt
ends in an error: only the file that the path leads to changes or is added, it holds exactly the new
content, and everything else that is new is a directory on the way of parents of the path. -/
theorem writers_keepToPath (tree : FileTree) (path : Path) :
    (∀ content, KeepsToPath tree path content (tree.writeOutput path content)) ∧
    ∀ time reports, KeepsToPath tree path
      (bytesOf (StatsDocument.ofReports time reports).toJson.pretty)
      (tree.writeStats time path reports) :=
  ⟨writeOutput_keepsToPath tree path, fun _ _ => writeOutput_keepsToPath tree path _⟩

/-- A missing directory is made on the way; the file it is made for comes after it. -/
example :
    let after := ((empty []).writeOutput (.ofText "charts/a.svg") (bytesOf "<svg/>")).2
    after.places = [([bytesOf "charts"], none),
      ([bytesOf "charts", bytesOf "a.svg"], some (bytesOf "<svg/>"))] := by
  decide +kernel

end FileTree

end HeapLatency
