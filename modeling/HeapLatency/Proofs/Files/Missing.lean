import HeapLatency.Proofs.Files.Additions
import HeapLatency.Proofs.Files.Parents
import HeapLatency.Proofs.Files.Rewriting

/-!
# Missing directories

Names that are no dots lead straight down, so where they lead to is told by their number and order
alone. While no file is in the way, the directories that are missing along them are made, the upper
ones first, and nothing is made below the last one.
-/

namespace HeapLatency

namespace FileTree

variable {tree before mid after : FileTree}

/-! ## Plain names -/

/-- A name that can be looked up or made in a directory. -/
structure Usable (name : Bytes) : Prop extends Path.IsName name where
  length_le : name.length ≤ maxName

theorem enterAt_of_usable {location : Location} {name : Bytes} (h : Usable name) :
    tree.enterAt location name =
      if (tree.node? (location ++ [name])).isSome then .ok (location ++ [name])
      else .error .notFound := by
  rw [enterAt, if_neg h.ne_here, if_neg h.ne_above, if_neg (Nat.not_lt.2 h.length_le)]

theorem isDirectoryAt_of_isSome {location : Location} {name : Bytes} {names : List Bytes}
    (h : (tree.node? (location ++ name :: names)).isSome = true) :
    tree.isDirectoryAt location = true := by
  obtain ⟨node, hnode⟩ := Option.isSome_iff_exists.1 h
  rw [node?, Node.at?_append, Option.bind_eq_some_iff] at hnode
  obtain ⟨inner, hinner, hbelow⟩ := hnode
  obtain ⟨child, hchild, -⟩ := Option.bind_eq_some_iff.1 hbelow
  exact isDirectoryAt_iff.2 ⟨inner, hinner, Node.isDirectory_of_child? hchild⟩

theorem isSome_of_isDirectoryAt {location : Location}
    (h : tree.isDirectoryAt location = true) : (tree.node? location).isSome = true := by
  obtain ⟨node, hnode, -⟩ := isDirectoryAt_iff.1 h
  exact Option.isSome_of_eq_some hnode

theorem isSome_of_append {location names : Location}
    (h : (tree.node? (location ++ names)).isSome = true) :
    (tree.node? location).isSome = true := by
  cases names with
  | nil => rwa [List.append_nil] at h
  | cons name names => exact isSome_of_isDirectoryAt (isDirectoryAt_of_isSome h)

theorem walkAt_of_isSome {location : Location} {names : List Bytes}
    (hnames : ∀ name ∈ names, Usable name)
    (h : (tree.node? (location ++ names)).isSome = true) :
    tree.walkAt location names = .ok (location ++ names) := by
  induction names generalizing location with
  | nil =>
    rw [List.append_nil]
    rfl
  | cons name names ih =>
    rw [List.append_cons] at h ⊢
    have hfirst : (tree.node? (location ++ [name])).isSome = true := isSome_of_append h
    rw [walkAt, if_pos (isDirectoryAt_of_isSome hfirst),
      enterAt_of_usable (hnames name List.mem_cons_self), if_pos hfirst]
    exact ih (fun other hother => hnames other (List.mem_cons_of_mem name hother)) h

/-- No file is in the way along some names. -/
def Clear (tree : FileTree) (location : Location) (names : List Bytes) : Prop :=
  ∀ front, front <+: names → tree.fileAt? (location ++ front) = none

theorem Clear.isDirectoryAt {location : Location} {names : List Bytes}
    (h : tree.Clear location names) (hsome : (tree.node? (location ++ names)).isSome = true) :
    tree.isDirectoryAt (location ++ names) = true := by
  obtain ⟨node, hnode⟩ := Option.isSome_iff_exists.1 hsome
  have hfile := h names (List.prefix_refl names)
  rw [fileAt?, hnode] at hfile
  cases node with
  | file content => cases hfile
  | directory entries => exact isDirectoryAt_iff.2 ⟨_, hnode, rfl⟩

theorem ne_nil_of_node?_none {location : Location} {names : List Bytes}
    (hdirectory : tree.isDirectoryAt location = true)
    (h : tree.node? (location ++ names) = none) : names ≠ [] := by
  rintro rfl
  have hsome := isSome_of_isDirectoryAt hdirectory
  rw [List.append_nil] at h
  rw [h] at hsome
  cases hsome

theorem walkAt_of_none {location : Location} {names : List Bytes}
    (hnames : ∀ name ∈ names, Usable name) (hclear : tree.Clear location names)
    (hdirectory : tree.isDirectoryAt location = true)
    (h : tree.node? (location ++ names) = none) :
    tree.walkAt location names = .error .notFound := by
  induction names generalizing location with
  | nil => exact absurd rfl (ne_nil_of_node?_none hdirectory h)
  | cons name names ih =>
    rw [walkAt, if_pos hdirectory, enterAt_of_usable (hnames name List.mem_cons_self)]
    by_cases hsome : (tree.node? (location ++ [name])).isSome = true
    · have hfirst : tree.Clear location [name] := fun front hfront =>
        hclear front (hfront.trans ⟨names, rfl⟩)
      rw [if_pos hsome]
      refine ih (fun other hother => hnames other (List.mem_cons_of_mem name hother)) ?_
        (hfirst.isDirectoryAt hsome) (by rwa [← List.append_cons])
      intro front hfront
      rw [← List.append_cons]
      exact hclear _ (List.cons_prefix_cons.2 ⟨rfl, hfront⟩)
    · rw [if_neg hsome]

/-! ## Making directories -/

/-- A change that adds nothing further down than a depth. -/
structure Deepened (depth : Nat) (before after : FileTree) : Prop where
  keeps : Keeps Nowhere before after
  added : ∀ location node, before.node? location = none → after.node? location = some node →
    location.length ≤ depth

theorem Deepened.refl (depth : Nat) (tree : FileTree) : Deepened depth tree tree where
  keeps := Keeps.refl Nowhere tree
  added location node hnone hnode := by
    rw [hnone] at hnode
    cases hnode

theorem Deepened.trans {depth deeper : Nat} (hle : depth ≤ deeper)
    (hfirst : Deepened depth before mid) (hsecond : Deepened deeper mid after) :
    Deepened deeper before after where
  keeps := hfirst.keeps.trans hsecond.keeps
  added location node hnone hnode := by
    cases hmid : mid.node? location with
    | none => exact hsecond.added location node hmid hnode
    | some made => exact (hfirst.added location made hnone hmid).trans hle

theorem Deepened.node?_eq_none {depth : Nat} (h : Deepened depth before after)
    {location : Location} (hnone : before.node? location = none)
    (hlength : depth < location.length) : after.node? location = none := by
  rw [Option.eq_none_iff_forall_ne_some]
  intro node hnode
  exact absurd (h.added location node hnone hnode) (Nat.not_le.2 hlength)

theorem Deepened.isDirectoryAt_eq_false {depth : Nat} (h : Deepened depth before after)
    {location : Location} (hnot : before.isDirectoryAt location = false)
    (hlength : depth < location.length) : after.isDirectoryAt location = false := by
  rw [← Bool.not_eq_true]
  intro hdirectory
  obtain ⟨node, hnode, hkind⟩ := isDirectoryAt_iff.1 hdirectory
  cases hbefore : before.node? location with
  | none =>
    rw [h.node?_eq_none hbefore hlength] at hnode
    cases hnode
  | some old =>
    obtain ⟨other, hother, hsame, -⟩ := h.keeps.root _ old hbefore
    obtain rfl : other = node := Option.some.inj (hother.symm.trans hnode)
    rw [isDirectoryAt, hbefore] at hnot
    exact Bool.false_ne_true (hnot.symm.trans (hsame.symm.trans hkind))

section Make

variable {path : Path} {names : List Bytes} {name : Bytes} {start : Location}

theorem resolveNew_of_walkAt_error {cause : Fault} (hcheck : checkPath path = .ok ())
    (hcomponents : path.components = names ++ [name]) (hstart : tree.originAt path = .ok start)
    (hwalk : tree.walkAt start names = .error cause) : tree.resolveNew path = .error cause := by
  obtain ⟨hbegin, hsees⟩ := tree.map_origin path
  rw [hstart] at hbegin
  obtain ⟨origin, horigin, rfl⟩ := map_eq_ok.1 hbegin
  obtain ⟨hend, -⟩ := (hsees origin horigin).walk names
  rw [hwalk] at hend
  have hfails : tree.walk origin names = .error cause := by
    cases hnext : tree.walk origin names with
    | error other =>
      rw [hnext] at hend
      cases hend
      rfl
    | ok next =>
      rw [hnext] at hend
      cases hend
  rw [resolveNew, hcheck, horigin, hcomponents, List.getLast?_concat, List.dropLast_concat]
  show (do
    let trail ← tree.walk origin names
    _) = _
  rw [hfails]
  rfl

theorem makeDirectory_of_walkAt_error (hcheck : checkPath path = .ok ())
    (hcomponents : path.components = names ++ [name]) (hstart : tree.originAt path = .ok start)
    (hwalk : tree.walkAt start names = .error .notFound) :
    tree.makeDirectory path = .error .notFound := by
  rw [makeDirectory, resolveNew_of_walkAt_error hcheck hcomponents hstart hwalk]
  rfl

theorem makeDirectory_of_isDirectoryAt (hcheck : checkPath path = .ok ())
    (hcomponents : path.components = names ++ [name]) (hstart : tree.originAt path = .ok start)
    (hnames : ∀ other ∈ names ++ [name], Usable other)
    (hdirectory : tree.isDirectoryAt (start ++ names) = true) :
    tree.makeDirectory path =
      if (tree.node? (start ++ names ++ [name])).isSome then .error .exists
      else .ok (tree.put (start ++ names ++ [name]) (.directory [])) := by
  have hname : Usable name := hnames name (List.mem_append_right _ List.mem_cons_self)
  have hwalk : tree.walkAt start names = .ok (start ++ names) :=
    walkAt_of_isSome (fun other hother => hnames other (List.mem_append_left _ hother))
      (isSome_of_isDirectoryAt hdirectory)
  rw [makeDirectory, resolveNew_of_walkAt hcheck hcomponents hstart hwalk hdirectory hname.ne_here
    hname.ne_above]
  exact if_neg (Nat.not_lt.2 hname.length_le)

theorem deepened_put (hdirectory : tree.isDirectoryAt (start ++ names) = true)
    (hnone : tree.node? (start ++ names ++ [name]) = none) :
    Deepened (start ++ names ++ [name]).length tree
        (tree.put (start ++ names ++ [name]) (.directory [])) ∧
      (tree.put (start ++ names ++ [name]) (.directory [])).isDirectoryAt
        (start ++ names ++ [name]) = true := by
  have hself := node?_put_self name (.directory []) hdirectory
  refine ⟨⟨keeps_put_of_none hdirectory hnone, fun location node hbefore hnode => ?_⟩,
    isDirectoryAt_iff.2 ⟨_, hself, rfl⟩⟩
  rcases isSome_of_node?_put hdirectory (fun below => rfl) hnode with rfl | hsome
  · exact Nat.le_refl _
  · rw [hbefore] at hsome
    cases hsome

theorem isEmpty_of_components (hcomponents : path.components = names) (hne : names ≠ []) :
    path.isEmpty = false := by
  rw [← Bool.not_eq_true]
  intro hempty
  rw [Path.components, List.isEmpty_iff.1 hempty] at hcomponents
  exact hne hcomponents.symm

theorem checkPath_of_isPrefix {other : Path} (hcheck : checkPath path = .ok ())
    (hbegins : other.bytes <+: path.bytes) (hempty : other.isEmpty = false) :
    checkPath other = .ok () := by
  obtain ⟨hnul, -, hlength⟩ := checkPath_eq_ok_iff.1 hcheck
  exact checkPath_eq_ok_iff.2 ⟨fun hmem => hnul (hbegins.subset hmem), hempty,
    hbegins.length_le.trans hlength⟩

theorem resolve_of_isDirectoryAt (hcheck : checkPath path = .ok ())
    (hcomponents : path.components = names) (hstart : tree.originAt path = .ok start)
    (hnames : ∀ name ∈ names, Usable name)
    (hdirectory : tree.isDirectoryAt (start ++ names) = true) :
    tree.resolve path = .ok (start ++ names) := by
  have hwalk := walkAt_of_isSome hnames (isSome_of_isDirectoryAt hdirectory)
  refine resolve_eq_ok_iff.2 ⟨hcheck, start, hstart, ?_⟩
  rw [stepsOf, hcomponents]
  split
  · exact walkAt_concat_eq_ok_iff.2 ⟨_, hwalk, hdirectory, rfl⟩
  · rwa [List.append_nil]

theorem contains_eq_false {cause : Fault} (hcomponents : path.components = names)
    (hstart : tree.originAt path = .ok start) (hwalk : tree.walkAt start names = .error cause) :
    tree.contains path = false := by
  rw [← Bool.not_eq_true]
  intro hcontains
  obtain ⟨location, hlocation⟩ := contains_iff.1 hcontains
  obtain ⟨-, begin, hbegin, hsteps⟩ := resolve_eq_ok_iff.1 hlocation
  obtain rfl := Except.ok.inj (hbegin.symm.trans hstart)
  rw [stepsOf, hcomponents, walkAt_append, hwalk] at hsteps
  cases hsteps

theorem isDirectory_iff :
    tree.isDirectory path = true ↔
      ∃ location, tree.resolve path = .ok location ∧ tree.isDirectoryAt location = true := by
  rw [isDirectory, resolve]
  cases htrail : tree.trail path with
  | error fault =>
    refine iff_of_false Bool.false_ne_true ?_
    rintro ⟨location, h, -⟩
    cases h
  | ok trail =>
    dsimp only
    rw [(sees_of_trail htrail).isDirectory_goal]
    constructor
    · exact fun h => ⟨_, rfl, h⟩
    · rintro ⟨location, hlocation, h⟩
      cases hlocation
      exact h

theorem not_isEmpty_of_checkPath (hcheck : checkPath path = .ok ()) : ¬path.isEmpty = true := by
  rw [(checkPath_eq_ok_iff.1 hcheck).2.1]
  exact Bool.false_ne_true

/-- Below a directory that is there, one more is made or is there. -/
theorem makeChain_of_isDirectoryAt {above : List Path} (hcheck : checkPath path = .ok ())
    (hcomponents : path.components = names ++ [name]) (hstart : tree.originAt path = .ok start)
    (hnames : ∀ other ∈ names ++ [name], Usable other)
    (hclear : tree.Clear start (names ++ [name]))
    (hdirectory : tree.isDirectoryAt (start ++ names) = true) :
    ∃ made, tree.makeChain (path :: above) = (.ok (), made) ∧
      Deepened (start ++ names ++ [name]).length tree made ∧
      made.isDirectoryAt (start ++ names ++ [name]) = true := by
  rw [makeChain, if_neg (not_isEmpty_of_checkPath hcheck),
    makeDirectory_of_isDirectoryAt hcheck hcomponents hstart hnames hdirectory]
  by_cases hsome : (tree.node? (start ++ names ++ [name])).isSome = true
  · rw [List.append_assoc] at hsome ⊢
    have hthere := hclear.isDirectoryAt hsome
    have hfound : tree.isDirectory path = true := isDirectory_iff.2
      ⟨_, resolve_of_isDirectoryAt hcheck hcomponents hstart hnames hthere, hthere⟩
    rw [if_pos hsome]
    dsimp only
    rw [if_pos hfound]
    exact ⟨tree, rfl, Deepened.refl _ tree, hthere⟩
  · rw [if_neg hsome]
    exact ⟨_, rfl, deepened_put hdirectory (Option.not_isSome_iff_eq_none.1 hsome)⟩

/-- The missing directories along names that no file is in the way of are made. -/
theorem makeChain_ancestorsUpTo {limit : Nat} (hlimit : names.length < limit)
    (hcomponents : path.components = names) (hne : names ≠ [])
    (hnames : ∀ name ∈ names, Usable name)
    (hends : path.endsInSlash = true → path.bytes = [Path.slash])
    (hcheck : checkPath path = .ok ()) (hstart : tree.originAt path = .ok start)
    (hdirectory : tree.isDirectoryAt start = true) (hclear : tree.Clear start names) :
    ∃ made, tree.makeChain (path.ancestorsUpTo limit) = (.ok (), made) ∧
      Deepened (start ++ names).length tree made ∧ made.isDirectoryAt (start ++ names) = true := by
  induction limit generalizing path names with
  | zero => exact absurd hlimit (Nat.not_lt_zero _)
  | succ limit ih =>
    obtain rfl | ⟨front, name, rfl⟩ := List.eq_nil_or_concat' names
    · exact absurd rfl hne
    have hplain : Path.here ∉ path.components := fun hmem =>
      (hnames _ (hcomponents ▸ hmem)).ne_here rfl
    have hname : path.endsInSlash = false := by
      rw [← Bool.not_eq_true]
      intro hslash
      rw [Path.components, hends hslash] at hcomponents
      exact List.concat_ne_nil name front hcomponents.symm
    obtain ⟨parent, hparent, hparents, hbegins, habsolute, hparentEnds⟩ :=
      Path.parent?_of_components hplain hname hcomponents
    have hfronts : ∀ other ∈ front, Usable other := fun other hother =>
      hnames other (List.mem_append_left _ hother)
    have hclearFront : tree.Clear start front := fun some hsome =>
      hclear some (hsome.trans ⟨[name], rfl⟩)
    rw [Path.ancestorsUpTo, hparent, ← List.append_assoc]
    by_cases hfront : (tree.node? (start ++ front)).isSome = true
    · exact makeChain_of_isDirectoryAt hcheck hcomponents hstart hnames hclear
        (hclearFront.isDirectoryAt hfront)
    · -- the directory above is missing as well, and is made first
      have hnone := Option.not_isSome_iff_eq_none.1 hfront
      have hmissing : tree.makeDirectory path = .error .notFound :=
        makeDirectory_of_walkAt_error hcheck hcomponents hstart
          (walkAt_of_none hfronts hclearFront hdirectory hnone)
      have hfrontNe := ne_nil_of_node?_none hdirectory hnone
      have hparentStart : tree.originAt parent = .ok start := by
        rw [originAt, habsolute]
        exact hstart
      have hshorter : front.length < limit := by
        rw [List.length_append, List.length_singleton] at hlimit
        omega
      obtain ⟨left, hleft, hdeepened, habove⟩ := ih hshorter hparents hfrontNe hfronts
        hparentEnds (checkPath_of_isPrefix hcheck hbegins (isEmpty_of_components hparents hfrontNe))
        hparentStart hclearFront
      have hstill : left.node? (start ++ front ++ [name]) = none := by
        refine hdeepened.node?_eq_none ?_ (by simp)
        rw [← Option.not_isSome_iff_eq_none]
        exact fun hsome => hfront (isSome_of_append hsome)
      obtain ⟨hlast, hthere⟩ := deepened_put habove hstill
      rw [makeChain, if_neg (not_isEmpty_of_checkPath hcheck), hmissing, hleft]
      dsimp only
      rw [makeDirectory_of_isDirectoryAt hcheck hcomponents (hdeepened.keeps.originAt hstart)
        hnames habove, hstill]
      exact ⟨_, rfl, hdeepened.trans (List.prefix_append (start ++ front) [name]).length_le hlast,
        hthere⟩

end Make

end FileTree

end HeapLatency
