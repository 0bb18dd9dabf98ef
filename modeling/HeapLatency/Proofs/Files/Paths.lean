import HeapLatency.Files.Path
import HeapLatency.Proofs.Text.Lines
import HeapLatency.Proofs.Text.Utf8
import Mathlib.Data.List.Basic

/-!
# Names and paths

A file name is a component that leads down by one step. Joined to a directory it is one more
component of the path, and nothing else of the path changes.
-/

namespace HeapLatency

section Splitting

variable {α : Type} [DecidableEq α] {separator : α}

theorem splitOn_append_separator (list rest : List α) :
    splitOn separator (list ++ separator :: rest) =
      splitOn separator list ++ splitOn separator rest := by
  induction list with
  | nil => simp [splitOn]
  | cons a list ih =>
    rw [List.cons_append, splitOn, ih, splitOn]
    split
    · rw [List.cons_append]
    · cases hpieces : splitOn separator list with
      | nil => exact absurd hpieces (splitOn_ne_nil separator list)
      | cons piece pieces => rfl

/-- What the whole ends in without a separator, its last piece ends in. -/
theorem exists_last_of_splitOn {ending : List α} (h : separator ∉ ending) (front : List α) :
    ∃ pieces last, splitOn separator (front ++ ending) = pieces ++ [last] ∧ ending <:+ last := by
  induction front with
  | nil => exact ⟨[], ending, splitOn_of_not_mem h, List.suffix_refl ending⟩
  | cons a front ih =>
    obtain ⟨pieces, last, hpieces, hending⟩ := ih
    rw [List.cons_append, splitOn, hpieces]
    split
    · exact ⟨[] :: pieces, last, rfl, hending⟩
    · cases pieces with
      | nil => exact ⟨[], a :: last, rfl, hending.trans (List.suffix_cons a last)⟩
      | cons piece pieces => exact ⟨(a :: piece) :: pieces, last, rfl, hending⟩

end Splitting

namespace Path

/-- A name as a directory can hold it. -/
structure IsName (name : Bytes) : Prop where
  nonempty : name ≠ []
  noSlash : slash ∉ name
  ne_here : name ≠ here
  ne_above : name ≠ above

theorem components_append_slash (front rest : Bytes) :
    (⟨front ++ slash :: rest⟩ : Path).components =
      (⟨front⟩ : Path).components ++ (⟨rest⟩ : Path).components := by
  rw [components, splitOn_append_separator, List.filter_append]
  rfl

theorem components_of_noSlash {name : Bytes} (hne : name ≠ []) (h : slash ∉ name) :
    (⟨name⟩ : Path).components = [name] := by
  rw [components, splitOn_of_not_mem h]
  exact List.filter_cons_of_pos (by simpa using hne)

theorem noSlash_of_mem_components {path : Path} {name : Bytes} (h : name ∈ path.components) :
    slash ∉ name :=
  not_mem_of_mem_splitOn (List.mem_filter.1 h).1

theorem isAbsolute_of_noSlash {name : Bytes} (h : slash ∉ name) :
    (⟨name⟩ : Path).isAbsolute = false := by
  cases name with
  | nil => rfl
  | cons b name =>
    rw [List.mem_cons, not_or] at h
    exact beq_false_of_ne fun heq => h.1 (Option.some.inj heq).symm

theorem isAbsolute_of_components_eq_nil {path : Path} (hne : path.isEmpty = false)
    (h : path.components = []) : path.isAbsolute = true := by
  obtain ⟨bytes⟩ := path
  cases bytes with
  | nil => cases hne
  | cons b bytes =>
    by_cases hslash : b = slash
    · rw [hslash]
      rfl
    · exfalso
      rw [components, splitOn, if_neg hslash] at h
      cases hpieces : splitOn slash bytes with
      | nil => exact absurd hpieces (splitOn_ne_nil slash bytes)
      | cons piece pieces =>
        rw [hpieces] at h
        exact absurd h (List.cons_ne_nil _ _)

section Join

variable {directory : Path} {name : Bytes}

/-- What stands before a relative path that is joined to a directory: nothing, or something that
ends in a slash. -/
theorem join_cases (directory : Path) :
    directory.bytes = [] ∧ (∀ path : Path, directory.join path = path) ∨
      ∃ front, (directory.bytes = front ++ [slash] ∨ directory.bytes = front ∧ front ≠ []) ∧
        ∀ path : Path, path.isAbsolute = false →
          directory.join path = ⟨front ++ slash :: path.bytes⟩ := by
  obtain ⟨bytes⟩ := directory
  by_cases hempty : bytes = []
  · left
    refine ⟨hempty, fun path => ?_⟩
    rw [join, hempty, isEmpty, List.isEmpty_nil, Bool.or_true, if_pos rfl]
  · right
    have hnonempty : (⟨bytes⟩ : Path).isEmpty = false := by simpa [isEmpty] using hempty
    by_cases hends : (⟨bytes⟩ : Path).endsInSlash = true
    · obtain ⟨front, hfront⟩ := List.getLast?_eq_some_iff.1 (eq_of_beq hends)
      refine ⟨front, Or.inl hfront, fun path hrelative => ?_⟩
      rw [join, hrelative, hnonempty, Bool.or_false, if_neg Bool.false_ne_true, if_pos hends]
      exact congrArg mk (by rw [hfront, List.append_assoc, List.singleton_append])
    · refine ⟨bytes, Or.inr ⟨rfl, hempty⟩, fun path hrelative => ?_⟩
      rw [join, hrelative, hnonempty, Bool.or_false, if_neg Bool.false_ne_true, if_neg hends]

theorem components_join (hne : name ≠ []) (h : slash ∉ name) :
    (directory.join ⟨name⟩).components = directory.components ++ [name] := by
  obtain ⟨bytes⟩ := directory
  rcases join_cases ⟨bytes⟩ with ⟨hempty, hjoin⟩ | ⟨front, hfront, hjoin⟩
  · rw [hjoin, components_of_noSlash hne h]
    subst hempty
    rfl
  · rw [hjoin ⟨name⟩ (isAbsolute_of_noSlash h), components_append_slash,
      components_of_noSlash hne h]
    rcases hfront with rfl | ⟨rfl, -⟩
    · rw [components_append_slash]
      exact (congrArg (· ++ [name]) (List.append_nil _)).symm
    · rfl

theorem isAbsolute_join (h : slash ∉ name) :
    (directory.join ⟨name⟩).isAbsolute = directory.isAbsolute := by
  obtain ⟨bytes⟩ := directory
  rcases join_cases ⟨bytes⟩ with ⟨hempty, hjoin⟩ | ⟨front, hfront, hjoin⟩
  · rw [hjoin, isAbsolute_of_noSlash h]
    subst hempty
    rfl
  · rw [hjoin ⟨name⟩ (isAbsolute_of_noSlash h)]
    rcases hfront with rfl | ⟨rfl, hne⟩
    · cases front <;> rfl
    · obtain ⟨b, rest, rfl⟩ := List.exists_cons_of_ne_nil hne
      rfl

theorem endsInSlash_join (hne : name ≠ []) (h : slash ∉ name) :
    (directory.join ⟨name⟩).endsInSlash = false := by
  have hlast : name.getLast? ≠ some slash := fun hlast => h (List.mem_of_getLast? hlast)
  apply beq_false_of_ne
  rcases join_cases directory with ⟨-, hjoin⟩ | ⟨front, -, hjoin⟩
  · rw [hjoin]
    exact hlast
  · rw [hjoin ⟨name⟩ (isAbsolute_of_noSlash h)]
    show (front ++ slash :: name).getLast? ≠ some slash
    rwa [List.append_cons, List.getLast?_append_of_ne_nil _ hne]

theorem bytes_sublist_join {path : Path} (h : path.isAbsolute = false) :
    directory.bytes.Sublist (directory.join path).bytes := by
  rcases join_cases directory with ⟨hempty, -⟩ | ⟨front, hfront, hjoin⟩
  · rw [hempty]
    exact List.nil_sublist _
  · rw [hjoin path h]
    rcases hfront with hfront | ⟨hfront, -⟩
    · rw [hfront]
      exact (List.cons_sublist_cons.2 (List.nil_sublist _)).append_left front
    · rw [hfront]
      exact List.sublist_append_left front _

theorem join_injective {path other : Path} (hpath : path.isAbsolute = false)
    (hother : other.isAbsolute = false) (h : directory.join path = directory.join other) :
    path = other := by
  rcases join_cases directory with ⟨-, hjoin⟩ | ⟨front, -, hjoin⟩
  · rwa [hjoin, hjoin] at h
  · rw [hjoin path hpath, hjoin other hother] at h
    have hbytes := List.append_cancel_left (Path.mk.inj h)
    exact congrArg mk (List.cons.inj hbytes).2

end Join

/-! ## File names -/

theorem fileName?_of_components {path : Path} {names : List Bytes} {name : Bytes}
    (h : path.components = names ++ [name]) (hhere : name ≠ here) (habove : name ≠ above) :
    path.fileName? = some name := by
  rw [fileName?, h, List.filter_append, List.filter_cons_of_pos (by simpa using hhere),
    List.filter_nil, List.getLast?_concat]
  exact Option.filter_some_pos (by simpa using habove)

theorem fileName?_join {directory : Path} {name : Bytes} (h : IsName name) :
    (directory.join ⟨name⟩).fileName? = some name :=
  fileName?_of_components (components_join h.nonempty h.noSlash) h.ne_here h.ne_above

theorem suffix_join (directory path : Path) : path.bytes <:+ (directory.join path).bytes := by
  rw [join]
  split
  · exact List.suffix_refl path.bytes
  split
  · exact List.suffix_append directory.bytes path.bytes
  · exact (List.suffix_cons slash path.bytes).trans (List.suffix_append directory.bytes _)

/-- A path that ends in text which is no dots, the file name does. -/
theorem exists_fileName?_of_suffix {path : Path} {ending : Bytes} (hslash : slash ∉ ending)
    (hlength : 2 < ending.length) (h : ending <:+ path.bytes) :
    ∃ name, path.fileName? = some name ∧ ending <:+ name := by
  obtain ⟨front, hfront⟩ := h
  obtain ⟨pieces, last, hpieces, hending⟩ := exists_last_of_splitOn hslash front
  rw [hfront] at hpieces
  have hle : ending.length ≤ last.length := hending.length_le
  have hne (name : Bytes) (hname : name.length ≤ 2) : last ≠ name := by
    rintro rfl
    omega
  have hcomponents : path.components =
      (pieces.filter fun piece => !piece.isEmpty) ++ [last] := by
    rw [components, hpieces, List.filter_append,
      List.filter_cons_of_pos (by simpa using hne [] (by decide)), List.filter_nil]
  exact ⟨last, fileName?_of_components hcomponents (hne here (by decide)) (hne above (by decide)),
    hending⟩

theorem mem_components_of_fileName? {path : Path} {name : Bytes}
    (h : path.fileName? = some name) : name ∈ path.components := by
  rw [fileName?, Option.filter_eq_some_iff] at h
  exact (List.mem_filter.1 (List.mem_of_getLast? h.1)).1

theorem slash_not_mem_displayName {path : Path} {name : Bytes}
    (h : path.fileName? = some name) : '/' ∉ path.displayName.toList := by
  have hslash := noSlash_of_mem_components (mem_components_of_fileName? h)
  rw [displayName, h]
  intro hmem
  rw [String.toList_ofList] at hmem
  exact hslash (Utf8.mem_of_mem_decodeLenient hmem (by decide) (by decide))

end Path

end HeapLatency
