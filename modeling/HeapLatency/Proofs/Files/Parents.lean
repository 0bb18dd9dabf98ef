import HeapLatency.Proofs.Files.Paths
import Mathlib.Data.List.TakeWhile

/-!
# The path above a path

Taking the last component off the bytes of a path, with the slashes before it, leaves the path
above it. As long as no component is a single dot, it has the other components, begins where the
path begins, and ends in no slash but that of the root.
-/

namespace HeapLatency

namespace Path

/-! ## Last components -/

theorem lastComponent_cases (anchor : Nat) (bytes : Bytes) :
    ∃ component, slash ∉ component ∧
      (lastComponent anchor bytes = (component, component.length) ∧
          bytes.drop anchor = component ∨
        ∃ front, lastComponent anchor bytes = (component, component.length + 1) ∧
          bytes.drop anchor = front ++ slash :: component) := by
  obtain ⟨tail, htail⟩ : ∃ tail, bytes.drop anchor = tail := ⟨_, rfl⟩
  have hsplit : tail.reverse.takeWhile (· ≠ slash) ++ tail.reverse.dropWhile (· ≠ slash) =
      tail.reverse := List.takeWhile_append_dropWhile
  have hnone : slash ∉ (tail.reverse.takeWhile (· ≠ slash)).reverse := by
    intro hmem
    have hslash := List.mem_takeWhile_imp (List.mem_reverse.1 hmem)
    simp at hslash
  refine ⟨_, hnone, ?_⟩
  rw [lastComponent, htail]
  cases hrest : tail.reverse.dropWhile (· ≠ slash) with
  | nil =>
    rw [hrest, List.append_nil] at hsplit
    have hwhole : (tail.reverse.takeWhile (· ≠ slash)).reverse = tail := by
      rw [hsplit, List.reverse_reverse]
    rw [hwhole] at hnone ⊢
    left
    rw [if_neg (by simpa using hnone)]
    exact ⟨rfl, rfl⟩
  | cons b rest =>
    have hb : b = slash := by
      have hhead := List.head?_dropWhile_not (· ≠ slash) tail.reverse
      rw [hrest] at hhead
      simpa using hhead
    rw [hrest, hb] at hsplit
    have hwhole : tail =
        rest.reverse ++ slash :: (tail.reverse.takeWhile (· ≠ slash)).reverse := by
      have hreversed := congrArg List.reverse hsplit
      rw [List.reverse_append, List.reverse_cons, List.append_assoc, List.singleton_append,
        List.reverse_reverse] at hreversed
      exact hreversed.symm
    right
    refine ⟨rest.reverse, ?_, hwhole⟩
    have hmem : slash ∈ tail := by
      rw [hwhole]
      exact List.mem_append_right _ List.mem_cons_self
    rw [if_pos (List.contains_iff_mem.2 hmem)]

/-- Bytes begin in their anchor: nothing, or the slash of the root. -/
theorem anchorLength_cases {bytes : Bytes} (h : here ∉ (⟨bytes⟩ : Path).components) :
    anchorLength bytes = 0 ∧ (⟨bytes⟩ : Path).isAbsolute = false ∨
      ∃ rest, bytes = slash :: rest ∧ anchorLength bytes = 1 := by
  cases bytes with
  | nil => exact .inl ⟨rfl, rfl⟩
  | cons first rest =>
    by_cases hslash : first = slash
    · exact .inr ⟨rest, by rw [hslash], if_pos hslash⟩
    · refine .inl ⟨?_, beq_false_of_ne fun heq => hslash (Option.some.inj heq)⟩
      rw [anchorLength, if_neg hslash, if_neg]
      rintro ⟨hhere, hrest⟩
      obtain rfl : first = 0x2E := List.head_eq_of_cons_eq hhere
      apply h
      cases rest with
      | nil => decide
      | cons second rest =>
        obtain rfl : second = slash := by simpa using hrest
        rw [show (0x2E :: slash :: rest : Bytes) = here ++ slash :: rest from rfl,
          components_append_slash]
        exact List.mem_append_left _ (by decide)

/-- What is left of some bytes when their last component is taken off. -/
structure Peeled (bytes front component : Bytes) : Prop where
  noSlash : slash ∉ component
  isPrefix : front <+: bytes
  suffix : component <:+ bytes
  components : (⟨bytes⟩ : Path).components =
    (⟨front⟩ : Path).components ++ (⟨component⟩ : Path).components
  isAbsolute : (⟨front⟩ : Path).isAbsolute = (⟨bytes⟩ : Path).isAbsolute
  slash_of_nil : component = [] → bytes = front ++ [slash]

theorem exists_peeled {bytes : Bytes} (h : here ∉ (⟨bytes⟩ : Path).components)
    (hlength : anchorLength bytes < bytes.length) :
    ∃ front component length, lastComponent (anchorLength bytes) bytes = (component, length) ∧
      bytes.take (bytes.length - length) = front ∧ Peeled bytes front component := by
  obtain ⟨component, hnone, hcases⟩ := lastComponent_cases (anchorLength bytes) bytes
  rcases anchorLength_cases h with ⟨hanchor, hrelative⟩ | ⟨rest, rfl, hanchor⟩
  · rw [hanchor, List.drop_zero] at hcases
    rw [hanchor] at hlength ⊢
    rcases hcases with ⟨hlast, rfl⟩ | ⟨front, hlast, rfl⟩
    · refine ⟨[], bytes, _, hlast, by rw [Nat.sub_self, List.take_zero], hnone, ?_, ?_, ?_, ?_, ?_⟩
      · exact List.nil_prefix
      · exact List.suffix_refl _
      · rfl
      · exact hrelative.symm
      · rintro rfl
        exact absurd hlength (by decide)
    · refine ⟨front, component, _, hlast, ?_, hnone, List.prefix_append _ _, ?_, ?_, ?_, ?_⟩
      · rw [List.length_append, List.length_cons, Nat.add_sub_cancel, List.take_left']
        rfl
      · exact (List.suffix_cons slash component).trans (List.suffix_append _ _)
      · exact components_append_slash front component
      · cases front with
        | nil => cases hrelative
        | cons b front => rfl
      · rintro rfl
        rfl
  · rw [hanchor, List.drop_one, List.tail_cons] at hcases
    rw [hanchor] at hlength ⊢
    rcases hcases with ⟨hlast, rfl⟩ | ⟨front, hlast, rfl⟩
    · refine ⟨[slash], rest, _, hlast, ?_, hnone, ?_, List.suffix_cons slash rest, ?_, rfl, ?_⟩
      · rw [List.length_cons, Nat.add_sub_cancel_left]
        rfl
      · exact ⟨rest, rfl⟩
      · exact components_append_slash [] rest
      · rintro rfl
        exact absurd hlength (by decide)
    · refine ⟨slash :: front, component, _, hlast, ?_, hnone, ⟨_, rfl⟩, ?_, ?_, rfl, ?_⟩
      · have hlast : (slash :: component).length = component.length + 1 := rfl
        rw [← List.cons_append, List.length_append, hlast, Nat.add_sub_cancel, List.take_left']
        rfl
      · exact (List.suffix_cons slash component).trans (List.suffix_append (slash :: front) _)
      · exact components_append_slash (slash :: front) component
      · rintro rfl
        rfl

/-! ## Parents -/

theorem length_components_le (path : Path) : path.components.length ≤ path.bytes.length := by
  obtain ⟨bytes⟩ := path
  induction bytes with
  | nil => decide
  | cons b bytes ih =>
    rw [components] at ih ⊢
    rw [splitOn]
    split
    · exact Nat.le_succ_of_le ih
    · cases hpieces : splitOn slash bytes with
      | nil => exact absurd hpieces (splitOn_ne_nil slash bytes)
      | cons piece pieces =>
        rw [hpieces] at ih
        refine Nat.succ_le_succ (Nat.le_trans ?_ ih)
        exact ((List.sublist_cons_self piece pieces).filter _).length_le

/-- Nothing but empty components comes off the end of bytes without single dots. -/
theorem trimEnd_spec {limit : Nat} {bytes : Bytes} (h : here ∉ (⟨bytes⟩ : Path).components)
    (hlimit : bytes.length ≤ limit) :
    trimEnd limit bytes <+: bytes ∧
      (⟨trimEnd limit bytes⟩ : Path).components = (⟨bytes⟩ : Path).components ∧
      (⟨trimEnd limit bytes⟩ : Path).isAbsolute = (⟨bytes⟩ : Path).isAbsolute ∧
      ((⟨trimEnd limit bytes⟩ : Path).endsInSlash = true → trimEnd limit bytes = [slash]) := by
  induction limit generalizing bytes with
  | zero =>
    obtain rfl := List.eq_nil_of_length_eq_zero (Nat.le_zero.1 hlimit)
    exact ⟨List.prefix_refl _, rfl, rfl, nofun⟩
  | succ limit ih =>
    rw [trimEnd]
    dsimp only
    by_cases hlength : bytes.length ≤ anchorLength bytes
    · rw [if_pos hlength]
      refine ⟨List.prefix_refl _, rfl, rfl, fun hends => ?_⟩
      rcases anchorLength_cases h with ⟨hanchor, -⟩ | ⟨rest, rfl, hanchor⟩
      · rw [hanchor] at hlength
        obtain rfl := List.eq_nil_of_length_eq_zero (Nat.le_zero.1 hlength)
        cases hends
      · rw [hanchor, List.length_cons] at hlength
        rw [List.eq_nil_of_length_eq_zero (show rest.length = 0 by omega)]
    · rw [if_neg hlength]
      obtain ⟨front, component, length, hlast, hfront, hpeeled⟩ :=
        exists_peeled h (Nat.lt_of_not_le hlength)
      rw [hlast]
      dsimp only
      by_cases hnil : component = []
      · subst hnil
        have hbytes := hpeeled.slash_of_nil rfl
        have hsame := hpeeled.components
        rw [show (⟨[]⟩ : Path).components = [] from rfl, List.append_nil] at hsame
        rw [if_pos (.inl rfl), hfront]
        have hshorter : front.length ≤ limit := by
          rw [hbytes, List.length_append, List.length_singleton] at hlimit
          omega
        obtain ⟨hbegins, hcomponents, habsolute, hends⟩ := ih (hsame ▸ h) hshorter
        exact ⟨hbegins.trans hpeeled.isPrefix, hcomponents.trans hsame.symm,
          habsolute.trans hpeeled.isAbsolute, hends⟩
      · have hhere : component ≠ here := by
          rintro rfl
          apply h
          rw [hpeeled.components]
          exact List.mem_append_right _ (by decide)
        rw [if_neg (by simpa using ⟨hnil, hhere⟩)]
        refine ⟨List.prefix_refl _, rfl, rfl, fun hends => ?_⟩
        obtain ⟨front, rfl⟩ := hpeeled.suffix
        rw [endsInSlash, List.getLast?_append_of_ne_nil _ hnil] at hends
        exact absurd (List.mem_of_getLast? (eq_of_beq hends)) hpeeled.noSlash

theorem parent?_of_components {path : Path} {names : List Bytes} {name : Bytes}
    (h : here ∉ path.components) (hends : path.endsInSlash = false)
    (hcomponents : path.components = names ++ [name]) :
    ∃ parent, path.parent? = some parent ∧ parent.components = names ∧
      parent.bytes <+: path.bytes ∧ parent.isAbsolute = path.isAbsolute ∧
      (parent.endsInSlash = true → parent.bytes = [slash]) := by
  obtain ⟨bytes⟩ := path
  have hlength : anchorLength bytes < bytes.length := by
    rcases anchorLength_cases h with ⟨hanchor, -⟩ | ⟨rest, rfl, hanchor⟩
    · rw [hanchor, List.length_pos_iff]
      rintro rfl
      cases names <;> cases hcomponents
    · rw [hanchor, List.length_cons, Nat.lt_add_left_iff_pos, List.length_pos_iff]
      rintro rfl
      cases hends
  obtain ⟨front, component, length, hlast, hfront, hpeeled⟩ := exists_peeled h hlength
  have hnil : component ≠ [] := by
    rintro rfl
    rw [hpeeled.slash_of_nil rfl, endsInSlash, List.getLast?_concat] at hends
    cases hends
  have hnames := hpeeled.components
  rw [hcomponents, components_of_noSlash hnil hpeeled.noSlash] at hnames
  obtain ⟨rfl, hname⟩ := List.append_inj' hnames rfl
  obtain rfl := List.head_eq_of_cons_eq hname
  have hhere : name ≠ here := by
    rintro rfl
    apply h
    rw [hcomponents]
    exact List.mem_append_right _ List.mem_cons_self
  have htrim : trimEnd bytes.length bytes = bytes := by
    obtain ⟨limit, hlimit⟩ : ∃ limit, bytes.length = limit + 1 :=
      ⟨bytes.length - 1, by omega⟩
    rw [hlimit, trimEnd]
    dsimp only
    rw [if_neg (Nat.not_le.2 hlength), hlast]
    exact if_neg (by simpa using ⟨hnil, hhere⟩)
  have hplain : here ∉ (⟨front⟩ : Path).components := fun hmem =>
    h (hpeeled.components ▸ List.mem_append_left _ hmem)
  obtain ⟨hbegins, hsame, habsolute, hslash⟩ := trimEnd_spec hplain (Nat.le_refl front.length)
  refine ⟨⟨trimEnd front.length front⟩, ?_, hsame, hbegins.trans hpeeled.isPrefix,
    habsolute.trans hpeeled.isAbsolute, hslash⟩
  rw [parent?]
  dsimp only
  rw [htrim, if_pos hlength, hlast, hfront]

end Path

end HeapLatency
