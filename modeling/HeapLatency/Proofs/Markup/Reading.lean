import HeapLatency.Markup
import HeapLatency.Proofs.Text.Lines
import Mathlib.Tactic.SplitIfs

/-!
# Reading markup

How a document is taken apart again by a reader that knows nothing of how it was put together:
into tags, which stand between angle brackets, and characters, which stand for themselves or are
named by an entity. Documents that the reader cannot make sense of are refused.
-/

namespace HeapLatency.Markup

inductive Token where
  | opening (name : String) (attributes : List (String × String))
  | closing (name : String)
  /-- Both tags of an element in one. -/
  | single (name : String) (attributes : List (String × String))
  | char (c : Char)
  deriving DecidableEq

def Token.isTag : Token → Bool
  | .char _ => false
  | _ => true

def tagsOf (tokens : List Token) : List Token := tokens.filter Token.isTag

/-! ## The reader -/

def entity? (name : List Char) : Option Char :=
  if name = "amp".toList then some '&'
  else if name = "lt".toList then some '<'
  else if name = "gt".toList then some '>'
  else if name = "quot".toList then some '"'
  else none

def isNameChar (c : Char) : Bool := c.isAlphanum || c == '-'

def name? (text : List Char) : Option String :=
  if text ≠ [] ∧ text.all isNameChar then some (String.ofList text) else none

/-- The name of an attribute from what stands in front of its value. -/
def key? : List Char → Option String
  | ' ' :: rest => if rest.getLast? = some '=' then name? rest.dropLast else none
  | _ => none

/-- Attributes from what stands between their quotation marks: a key and a value by turns, and
nothing behind the last value. -/
def attributes? : List (List Char) → Option (List (String × String))
  | [[]] => some []
  | key :: value :: parts =>
    (key? key).bind fun name =>
      (attributes? parts).map fun attributes => (name, String.ofList value) :: attributes
  | _ => none

def start? (body : List Char) : Option (String × List (String × String)) :=
  (name? (body.takeWhile isNameChar)).bind fun name =>
    (attributes? (splitOn '"' (body.dropWhile isNameChar))).map fun attributes =>
      (name, attributes)

/-- A tag from what stands between its brackets. -/
def tag? (body : List Char) : Option Token :=
  if body.head? = some '/' then (name? body.tail).map .closing
  else if body.getLast? = some '/' then
    (start? body.dropLast).map fun start => .single start.1 start.2
  else (start? body).map fun start => .opening start.1 start.2

/-- Where a reader is, with what it has seen of a tag or an entity, the last character first. -/
inductive Place where
  | content
  | entity (seen : List Char)
  | tag (seen : List Char)

def readFrom : Place → List Char → Option (List Token)
  | .content, [] => some []
  | _, [] => none
  | .content, c :: rest =>
    if c = '<' then readFrom (.tag []) rest
    else if c = '&' then readFrom (.entity []) rest
    else (readFrom .content rest).map (.char c :: ·)
  | .entity seen, c :: rest =>
    if c = ';' then
      (entity? seen.reverse).bind fun named => (readFrom .content rest).map (.char named :: ·)
    else readFrom (.entity (c :: seen)) rest
  | .tag seen, c :: rest =>
    if c = '>' then
      (tag? seen.reverse).bind fun tag => (readFrom .content rest).map (tag :: ·)
    else if c = '<' ∨ c = '&' then none
    else readFrom (.tag (c :: seen)) rest

def read (text : String) : Option (List Token) := readFrom .content text.toList

/-! ## What the tokens make up -/

/-- Elements and characters side by side. Every element that is opened is closed, and closed before
the one around it. -/
inductive Nested : List Token → Prop
  | nil : Nested []
  | char (c : Char) {rest : List Token} (h : Nested rest) : Nested (.char c :: rest)
  | single (name : String) (attributes : List (String × String)) {rest : List Token}
      (h : Nested rest) : Nested (.single name attributes :: rest)
  | element (name : String) (attributes : List (String × String)) {inner rest : List Token}
      (hinner : Nested inner) (h : Nested rest) :
      Nested (.opening name attributes :: inner ++ .closing name :: rest)

/-- Characters between two tags, unless there are none. -/
def between (around : List String) : Option (List Char) → List (List String × String)
  | some (c :: seen) => [(around.reverse, String.ofList (c :: seen).reverse)]
  | _ => []

/-- The texts of a document, each with the names of the elements around it, outermost first: the
text of every element that has no others in it, and whatever else stands between two tags.
`around` are the elements around and `seen` the characters since the last tag, in either case the
last one first; after the end of an element there are none to begin with. -/
def textsFrom (around : List String) (seen : Option (List Char)) :
    List Token → List (List String × String)
  | [] => between around seen
  | .opening name _ :: rest => between around seen ++ textsFrom (name :: around) (some []) rest
  | .single _ _ :: rest => between around seen ++ textsFrom around none rest
  | .closing _ :: rest =>
    seen.toList.map (fun text => (around.reverse, String.ofList text.reverse)) ++
      textsFrom around.tail none rest
  | .char c :: rest => textsFrom around (some (c :: seen.getD [])) rest

def textsOf (tokens : List Token) : List (List String × String) := textsFrom [] none tokens

example : read "<a b=\"1 2\">x &lt; y<c/></a>" =
    some [.opening "a" [("b", "1 2")], .char 'x', .char ' ', .char '<', .char ' ', .char 'y',
      .single "c" [], .closing "a"] := by
  decide

/-! ## Texts -/

/-- A text without the characters that mark structure. -/
def Plain (text : List Char) : Prop := ∀ c ∈ text, c ≠ '&' ∧ c ≠ '<' ∧ c ≠ '>' ∧ c ≠ '"'

/-- A text whose characters stand for themselves. -/
def Literal (text : List Char) : Prop := ∀ c ∈ text, c ≠ '&' ∧ c ≠ '<'

instance (text : List Char) : Decidable (Plain text) :=
  decidable_of_iff (text.all (fun c => c != '&' && c != '<' && c != '>' && c != '"') = true)
    (by simp [Plain, and_assoc])

instance (text : List Char) : Decidable (Literal text) :=
  decidable_of_iff (text.all (fun c => c != '&' && c != '<') = true) (by simp [Literal])

theorem Plain.literal {text : List Char} (h : Plain text) : Literal text :=
  fun c hc => ⟨(h c hc).1, (h c hc).2.1⟩

theorem Plain.append {text other : List Char} (h : Plain text) (hother : Plain other) :
    Plain (text ++ other) :=
  List.forall_mem_append.2 ⟨h, hother⟩

theorem readFrom_literal {text : List Char} (h : Literal text) (rest : List Char) :
    readFrom .content (text ++ rest) = (readFrom .content rest).map (text.map .char ++ ·) := by
  induction text with
  | nil => exact Option.map_id'.symm
  | cons c text ih =>
    obtain ⟨hamp, hlt⟩ := h c List.mem_cons_self
    rw [List.cons_append, readFrom, if_neg hlt, if_neg hamp,
      ih fun d hd => h d (List.mem_cons_of_mem c hd), Option.map_map]
    rfl

theorem readFrom_escapeChar (c : Char) (rest : List Char) :
    readFrom .content (escapeChar c ++ rest) = (readFrom .content rest).map (.char c :: ·) := by
  rw [escapeChar]
  split_ifs with hamp hlt hgt hquot
  · rw [hamp]
    rfl
  · rw [hlt]
    rfl
  · rw [hgt]
    rfl
  · rw [hquot]
    rfl
  · rw [List.singleton_append, readFrom, if_neg hlt, if_neg hamp]

/-- A text is read back from its escaped form. -/
theorem readFrom_escape (text : String) (rest : List Char) :
    readFrom .content ((escape text).toList ++ rest) =
      (readFrom .content rest).map (text.toList.map .char ++ ·) := by
  rw [escape, String.toList_ofList]
  induction text.toList with
  | nil => exact Option.map_id'.symm
  | cons c text ih =>
    rw [List.flatMap_cons, List.append_assoc, readFrom_escapeChar, ih, Option.map_map]
    rfl

theorem not_mem_escape {c : Char} (h : c = '<' ∨ c = '>' ∨ c = '"') (text : String) :
    c ∉ (escape text).toList := by
  rw [escape, String.toList_ofList, List.mem_flatMap]
  rintro ⟨d, -, hd⟩
  rw [escapeChar] at hd
  split_ifs at hd with hamp hlt hgt hquot
  case neg =>
    obtain rfl := List.mem_singleton.1 hd
    exact h.elim hlt (Or.rec hgt hquot)
  all_goals rcases h with rfl | rfl | rfl <;> exact absurd hd (by decide)

/-! ## Tags -/

/-- Names and values that a tag can be made of. -/
structure Taggable (name : String) (attributes : List (String × String)) : Prop where
  name : name? name.toList = some name
  keys : ∀ entry ∈ attributes, name? entry.1.toList = some entry.1
  values : ∀ entry ∈ attributes, Plain entry.2.toList

theorem name?_eq_some_iff {text : List Char} {name : String} :
    name? text = some name ↔ text ≠ [] ∧ (∀ c ∈ text, isNameChar c = true) ∧
      String.ofList text = name := by
  rw [name?]
  split_ifs with h
  all_goals rw [List.all_eq_true] at h
  · rw [Option.some.injEq]
    exact ⟨fun heq => ⟨h.1, h.2, heq⟩, fun hall => hall.2.2⟩
  · exact iff_of_false nofun fun hall => h ⟨hall.1, hall.2.1⟩

theorem ne_of_isNameChar {c : Char} (h : isNameChar c = true) :
    c ≠ '&' ∧ c ≠ '<' ∧ c ≠ '>' ∧ c ≠ '"' ∧ c ≠ '/' ∧ c ≠ ' ' := by
  refine ⟨?_, ?_, ?_, ?_, ?_, ?_⟩
  all_goals
    rintro rfl
    exact absurd h (by decide)

theorem plain_of_name {text : List Char} {name : String} (h : name? text = some name) :
    Plain text := by
  intro c hc
  obtain ⟨hamp, hlt, hgt, hquot, -⟩ := ne_of_isNameChar ((name?_eq_some_iff.1 h).2.1 c hc)
  exact ⟨hamp, hlt, hgt, hquot⟩

/-- The characters of attributes in a tag. -/
def attributeChars (attributes : List (String × String)) : List Char :=
  attributes.flatMap fun entry =>
    (' ' :: entry.1.toList ++ ['=']) ++ '"' :: (entry.2.toList ++ ['"'])

theorem toList_attributesText (attributes : List (String × String)) :
    (attributesText attributes).toList = attributeChars attributes := by
  rw [attributesText, String.toList_join, List.flatMap_map, attributeChars]
  congr 1
  funext entry
  simp [String.toList_append]

theorem attributeChars_cons (key value : String) (attributes : List (String × String)) :
    attributeChars ((key, value) :: attributes) =
      (' ' :: key.toList ++ ['=']) ++ '"' :: (value.toList ++ '"' ::
        attributeChars attributes) := by
  rw [attributeChars, List.flatMap_cons]
  simp [attributeChars]

theorem attributes?_attributeChars {attributes : List (String × String)}
    (hkeys : ∀ entry ∈ attributes, name? entry.1.toList = some entry.1)
    (hvalues : ∀ entry ∈ attributes, Plain entry.2.toList) :
    attributes? (splitOn '"' (attributeChars attributes)) = some attributes := by
  induction attributes with
  | nil => rfl
  | cons entry attributes ih =>
    obtain ⟨key, value⟩ := entry
    have hkey := hkeys _ List.mem_cons_self
    have hquotKey : '"' ∉ ' ' :: key.toList ++ ['='] := by
      simp only [List.cons_append, List.mem_cons, List.mem_append, List.not_mem_nil, or_false]
      rintro (h | h | h)
      · exact absurd h (by decide)
      · exact (plain_of_name hkey _ h).2.2.2 rfl
      · exact absurd h (by decide)
    have hquotValue : '"' ∉ value.toList := fun h =>
      (hvalues _ List.mem_cons_self _ h).2.2.2 rfl
    have hname : key? (' ' :: key.toList ++ ['=']) = some key := by
      rw [List.cons_append, key?, List.getLast?_concat, if_pos rfl, List.dropLast_concat]
      exact hkey
    rw [attributeChars_cons, splitOn_append_cons hquotKey, splitOn_append_cons hquotValue,
      attributes?, hname, ih (fun other h => hkeys other (List.mem_cons_of_mem _ h))
        (fun other h => hvalues other (List.mem_cons_of_mem _ h)), Option.bind_some,
      Option.map_some, String.ofList_toList]

/-- What stands between the brackets of a tag. -/
def Inside (body : List Char) : Prop := ∀ c ∈ body, c ≠ '&' ∧ c ≠ '<' ∧ c ≠ '>'

theorem Plain.inside {text : List Char} (h : Plain text) : Inside text :=
  fun c hc => ⟨(h c hc).1, (h c hc).2.1, (h c hc).2.2.1⟩

theorem Inside.append {body other : List Char} (h : Inside body) (hother : Inside other) :
    Inside (body ++ other) :=
  List.forall_mem_append.2 ⟨h, hother⟩

theorem Inside.cons {c : Char} {body : List Char} (hc : c ≠ '&' ∧ c ≠ '<' ∧ c ≠ '>')
    (h : Inside body) : Inside (c :: body) :=
  List.forall_mem_cons.2 ⟨hc, h⟩

theorem inside_attributeChars {attributes : List (String × String)}
    (hkeys : ∀ entry ∈ attributes, name? entry.1.toList = some entry.1)
    (hvalues : ∀ entry ∈ attributes, Plain entry.2.toList) :
    Inside (attributeChars attributes) := by
  induction attributes with
  | nil => exact nofun
  | cons entry attributes ih =>
    obtain ⟨key, value⟩ := entry
    have hkey : Inside (' ' :: key.toList ++ ['=']) :=
      (Inside.cons (by decide) (plain_of_name (hkeys _ List.mem_cons_self)).inside).append
        (Inside.cons (by decide) nofun)
    rw [attributeChars_cons]
    exact hkey.append (.cons (by decide) ((hvalues _ List.mem_cons_self).inside.append
      (.cons (by decide) (ih (fun other h => hkeys other (List.mem_cons_of_mem _ h))
        (fun other h => hvalues other (List.mem_cons_of_mem _ h))))))

theorem getLast?_attributeChars {attributes : List (String × String)} {c : Char}
    (h : (attributeChars attributes).getLast? = some c) : c = '"' := by
  induction attributes with
  | nil => cases h
  | cons entry attributes ih =>
    obtain ⟨key, value⟩ := entry
    rw [attributeChars_cons, ← List.cons_append, ← List.append_assoc, List.getLast?_append,
      List.getLast?_cons] at h
    cases hlast : (attributeChars attributes).getLast? with
    | some d =>
      rw [hlast] at h
      cases h
      exact ih hlast
    | none =>
      rw [hlast] at h
      cases h
      rfl

section Tags

variable {name : String} {attributes : List (String × String)}

theorem Taggable.nil (h : name? name.toList = some name) : Taggable name [] := ⟨h, nofun, nofun⟩

theorem Taggable.cons {key value : String} (hkey : name? key.toList = some key)
    (hvalue : Plain value.toList) (h : Taggable name attributes) :
    Taggable name ((key, value) :: attributes) where
  name := h.name
  keys := List.forall_mem_cons.2 ⟨hkey, h.keys⟩
  values := List.forall_mem_cons.2 ⟨hvalue, h.values⟩

theorem Taggable.inside (h : Taggable name attributes) :
    Inside (name.toList ++ attributeChars attributes) :=
  (plain_of_name h.name).inside.append (inside_attributeChars h.keys h.values)

theorem Taggable.start (h : Taggable name attributes) :
    start? (name.toList ++ attributeChars attributes) = some (name, attributes) := by
  have hchars := (name?_eq_some_iff.1 h.name).2.1
  have hnone : (attributeChars attributes).takeWhile isNameChar = [] ∧
      (attributeChars attributes).dropWhile isNameChar =
        attributeChars attributes := by
    cases attributes with
    | nil => exact ⟨rfl, rfl⟩
    | cons entry attributes =>
      rw [attributeChars_cons]
      exact ⟨rfl, rfl⟩
  rw [start?, List.takeWhile_append_of_pos hchars, List.dropWhile_append_of_pos hchars, hnone.1,
    hnone.2, List.append_nil, h.name, attributes?_attributeChars h.keys h.values]
  rfl

theorem Taggable.exists_head (h : Taggable name attributes) :
    ∃ c rest, name.toList = c :: rest ∧ c ≠ '/' := by
  obtain ⟨hne, hchars, -⟩ := name?_eq_some_iff.1 h.name
  obtain ⟨c, rest, heq⟩ := List.exists_cons_of_ne_nil hne
  have hc := ne_of_isNameChar (hchars c (by rw [heq]; exact List.mem_cons_self))
  exact ⟨c, rest, heq, hc.2.2.2.2.1⟩

theorem Taggable.getLast? (h : Taggable name attributes) :
    (name.toList ++ attributeChars attributes).getLast? ≠ some '/' := by
  intro hlast
  rw [List.getLast?_append] at hlast
  cases hattributes : (attributeChars attributes).getLast? with
  | some c =>
    rw [hattributes, getLast?_attributeChars hattributes] at hlast
    exact absurd (Option.some.inj hlast) (by decide)
  | none =>
    rw [hattributes] at hlast
    have hmem := List.mem_of_getLast? hlast
    exact (ne_of_isNameChar ((name?_eq_some_iff.1 h.name).2.1 _ hmem)).2.2.2.2.1 rfl

theorem Taggable.tag?_opening (h : Taggable name attributes) :
    tag? (name.toList ++ attributeChars attributes) = some (.opening name attributes) := by
  obtain ⟨c, rest, heq, hc⟩ := h.exists_head
  have hhead : (name.toList ++ attributeChars attributes).head? ≠ some '/' := by
    rw [heq]
    exact fun h => hc (Option.some.inj h)
  rw [tag?, if_neg hhead, if_neg h.getLast?, h.start]
  rfl

theorem Taggable.tag?_single (h : Taggable name attributes) :
    tag? (name.toList ++ attributeChars attributes ++ ['/']) =
      some (.single name attributes) := by
  obtain ⟨c, rest, heq, hc⟩ := h.exists_head
  have hhead : (name.toList ++ attributeChars attributes ++ ['/']).head? ≠ some '/' := by
    rw [heq]
    exact fun h => hc (Option.some.inj h)
  rw [tag?, if_neg hhead, List.getLast?_concat, if_pos rfl, List.dropLast_concat, h.start]
  rfl

theorem Taggable.tag?_closing (h : Taggable name attributes) :
    tag? ('/' :: name.toList) = some (.closing name) := by
  rw [tag?, List.head?_cons, if_pos rfl, List.tail_cons, h.name]
  rfl

end Tags

theorem readFrom_tag {body : List Char} (h : Inside body) (seen rest : List Char) :
    readFrom (.tag seen) (body ++ '>' :: rest) =
      (tag? (seen.reverse ++ body)).bind fun tag =>
        (readFrom .content rest).map (tag :: ·) := by
  induction body generalizing seen with
  | nil => rw [List.nil_append, readFrom, if_pos rfl, List.append_nil]
  | cons c body ih =>
    obtain ⟨hamp, hlt, hgt⟩ := h c List.mem_cons_self
    rw [List.cons_append, readFrom, if_neg hgt, if_neg (not_or.2 ⟨hlt, hamp⟩),
      ih fun d hd => h d (List.mem_cons_of_mem c hd), List.reverse_cons, List.append_assoc,
      List.singleton_append]

theorem readFrom_bracket {body : List Char} {tag : Token} (h : Inside body)
    (htag : tag? body = some tag) (rest : List Char) :
    readFrom .content ('<' :: (body ++ '>' :: rest)) =
      (readFrom .content rest).map (tag :: ·) := by
  rw [readFrom, if_pos rfl, readFrom_tag h, List.reverse_nil, List.nil_append, htag,
    Option.bind_some]

end HeapLatency.Markup
