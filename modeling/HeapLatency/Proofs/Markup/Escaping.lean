import HeapLatency.Proofs.Markup.Reading

/-!
# Escaped text

Escaping puts an entity in the place of each of the four characters that mark structure. It is the
same as to replace one of them after the other, the ampersand first, since the other entities are
written with one. Nothing of a text is lost: what stands in the escaped text is either a character
as it was or an entity, and one pass over it tells the two apart.
-/

namespace HeapLatency.Markup

/-- The entities, each with the character it stands for. -/
def entities : List (String × Char) :=
  [("&amp;", '&'), ("&lt;", '<'), ("&gt;", '>'), ("&quot;", '"')]

/-- Every occurrence of a character makes way for a text. -/
def replaceChar (replaced : Char) (entity : String) (text : List Char) : List Char :=
  text.flatMap fun c => if c = replaced then entity.toList else [c]

/-- One pass over a text that puts characters in the place of their entities. An ampersand that
begins none of them stays. -/
def unescapeChars : List Char → List Char
  | '&' :: 'a' :: 'm' :: 'p' :: ';' :: rest => '&' :: unescapeChars rest
  | '&' :: 'l' :: 't' :: ';' :: rest => '<' :: unescapeChars rest
  | '&' :: 'g' :: 't' :: ';' :: rest => '>' :: unescapeChars rest
  | '&' :: 'q' :: 'u' :: 'o' :: 't' :: ';' :: rest => '"' :: unescapeChars rest
  | c :: rest => c :: unescapeChars rest
  | [] => []

def unescape (text : String) : String := String.ofList (unescapeChars text.toList)

/-! ## One character -/

theorem mem_entities_of_marks {c : Char} (h : c = '&' ∨ c = '<' ∨ c = '>' ∨ c = '"') :
    ∃ entity, (entity, c) ∈ entities ∧ escapeChar c = entity.toList := by
  rcases h with rfl | rfl | rfl | rfl
  · exact ⟨"&amp;", by decide, rfl⟩
  · exact ⟨"&lt;", by decide, rfl⟩
  · exact ⟨"&gt;", by decide, rfl⟩
  · exact ⟨"&quot;", by decide, rfl⟩

theorem escapeChar_of_unmarked {c : Char} (h : c ≠ '&' ∧ c ≠ '<' ∧ c ≠ '>' ∧ c ≠ '"') :
    escapeChar c = [c] := by
  rw [escapeChar, if_neg h.1, if_neg h.2.1, if_neg h.2.2.1, if_neg h.2.2.2]

theorem escapeChar_cases (c : Char) :
    (∃ entity, (entity, c) ∈ entities ∧ escapeChar c = entity.toList) ∨
      c ≠ '&' ∧ escapeChar c = [c] := by
  by_cases h : c = '&' ∨ c = '<' ∨ c = '>' ∨ c = '"'
  · exact .inl (mem_entities_of_marks h)
  · simp only [not_or] at h
    exact .inr ⟨h.1, escapeChar_of_unmarked h⟩

theorem exists_of_mem_entities {entry : String × Char} (h : entry ∈ entities) :
    ∃ name, entry.1.toList = '&' :: name ∧ Plain name := by
  have hall : ∀ entry ∈ entities, entry.1.toList = '&' :: entry.1.toList.tail ∧
      Plain entry.1.toList.tail := by
    decide
  exact ⟨_, hall entry h⟩

theorem unescapeChars_entity {entry : String × Char} (h : entry ∈ entities) (rest : List Char) :
    unescapeChars (entry.1.toList ++ rest) = entry.2 :: unescapeChars rest := by
  simp only [entities, List.mem_cons, List.not_mem_nil, or_false] at h
  rcases h with rfl | rfl | rfl | rfl <;> rfl

theorem unescapeChars_cons {c : Char} (h : c ≠ '&') (rest : List Char) :
    unescapeChars (c :: rest) = c :: unescapeChars rest := by
  rw [unescapeChars]
  all_goals
    rintro _ rfl
    exact absurd rfl h

/-! ## Texts -/

theorem toList_escape (text : String) : (escape text).toList = text.toList.flatMap escapeChar :=
  String.toList_ofList

/-- The ampersands of an escaped text are those that its entities begin with. -/
theorem entity_of_flatMap {text before after : List Char}
    (h : text.flatMap escapeChar = before ++ '&' :: after) :
    ∃ entry ∈ entities, entry.1.toList <+: '&' :: after := by
  induction text generalizing before with
  | nil => simp at h
  | cons c text ih =>
    rw [List.flatMap_cons, List.append_eq_append_iff] at h
    rcases h with ⟨between, rfl, hrest⟩ | ⟨between, hchar, hrest⟩
    · exact ih hrest
    · -- the ampersand stands in what the first character is written as, or right behind it
      cases between with
      | nil =>
        have hrest : text.flatMap escapeChar = [] ++ '&' :: after := hrest.symm
        exact ih hrest
      | cons first others =>
        obtain ⟨rfl, rfl⟩ := List.cons.inj hrest
        rcases escapeChar_cases c with ⟨entity, hentity, heq⟩ | ⟨hamp, heq⟩
        · obtain ⟨name, hname, hplain⟩ := exists_of_mem_entities hentity
          refine ⟨_, hentity, ?_⟩
          rw [heq] at hchar
          cases before with
          | nil => exact ⟨text.flatMap escapeChar, by rw [hchar]; rfl⟩
          | cons d before =>
            rw [hname] at hchar
            have hmem : '&' ∈ name := by
              rw [(List.cons.inj hchar).2]
              exact List.mem_append_right _ List.mem_cons_self
            exact absurd rfl (hplain _ hmem).1
        · rw [heq] at hchar
          have hmem : '&' ∈ [c] := by
            rw [hchar]
            exact List.mem_append_right _ List.mem_cons_self
          exact absurd (List.mem_singleton.1 hmem).symm hamp

theorem unescapeChars_flatMap (text : List Char) :
    unescapeChars (text.flatMap escapeChar) = text := by
  induction text with
  | nil => rfl
  | cons c text ih =>
    rw [List.flatMap_cons]
    rcases escapeChar_cases c with ⟨entity, hentity, heq⟩ | ⟨hamp, heq⟩
    · rw [heq, unescapeChars_entity hentity, ih]
    · rw [heq, List.singleton_append, unescapeChars_cons hamp, ih]

theorem unescape_escape (text : String) : unescape (escape text) = text := by
  rw [unescape, toList_escape, unescapeChars_flatMap, String.ofList_toList]

theorem escape_append (text other : String) :
    escape (text ++ other) = escape text ++ escape other := by
  rw [escape, String.toList_append, List.flatMap_append, String.ofList_append]
  rfl

theorem replaceChar_singleton {c replaced : Char} (h : c ≠ replaced) (entity : String) :
    replaceChar replaced entity [c] = [c] := by
  rw [replaceChar, List.flatMap_singleton, if_neg h]

/-- Replacing the characters one after the other comes to the same, as only the ampersand occurs
in entities. -/
theorem escape_eq_replaceChar (text : String) :
    escape text = String.ofList
      (entities.foldl (fun written entry => replaceChar entry.2 entry.1 written) text.toList) := by
  have hchar (c : Char) : (replaceChar '"' "&quot;" (replaceChar '>' "&gt;"
      (replaceChar '<' "&lt;" (replaceChar '&' "&amp;" [c])))) = escapeChar c := by
    by_cases h : c = '&' ∨ c = '<' ∨ c = '>' ∨ c = '"'
    · rcases h with rfl | rfl | rfl | rfl <;> decide
    · simp only [not_or] at h
      rw [replaceChar_singleton h.1, replaceChar_singleton h.2.1, replaceChar_singleton h.2.2.1,
        replaceChar_singleton h.2.2.2, escapeChar_of_unmarked h]
  rw [escape]
  congr 1
  simp only [entities, List.foldl_cons, List.foldl_nil]
  induction text.toList with
  | nil => rfl
  | cons c text ih =>
    rw [List.flatMap_cons, ih, ← hchar]
    simp only [replaceChar, List.flatMap_cons, List.flatMap_nil, List.flatMap_append,
      List.append_nil]

/-- Escaping is faithful. It leaves none of the characters that mark structure but the ampersands of
the entities, all that was there is found again, so different texts are escaped differently, and
parts of a text may be escaped by themselves. -/
theorem escape_faithful :
    (∀ text, escape text = String.ofList
      (entities.foldl (fun written entry => replaceChar entry.2 entry.1 written) text.toList)) ∧
    (∀ text, '<' ∉ (escape text).toList ∧ '>' ∉ (escape text).toList ∧
      '"' ∉ (escape text).toList) ∧
    (∀ text before after, (escape text).toList = before ++ '&' :: after →
      ∃ entry ∈ entities, entry.1.toList <+: '&' :: after) ∧
    (∀ text, unescape (escape text) = text) ∧
    Function.Injective escape ∧
    ∀ text other, escape (text ++ other) = escape text ++ escape other := by
  refine ⟨escape_eq_replaceChar, fun text => ⟨?_, ?_, ?_⟩, fun text before after h => ?_,
    unescape_escape, Function.LeftInverse.injective unescape_escape, escape_append⟩
  · exact not_mem_escape (.inl rfl) text
  · exact not_mem_escape (.inr (.inl rfl)) text
  · exact not_mem_escape (.inr (.inr rfl)) text
  · rw [toList_escape] at h
    exact entity_of_flatMap h

theorem escape_faithful_sample :
    escape "&lt; \"<\"" = "&amp;lt; &quot;&lt;&quot;" ∧
      unescape "&amp;lt; &quot;&lt;&quot;" = "&lt; \"<\"" ∧
      ∃ entry ∈ entities, entry.1.toList <+: "&lt;&quot;".toList := by
  have hwritten : escape "&lt; \"<\"" = "&amp;lt; &quot;&lt;&quot;" := by decide +kernel
  refine ⟨hwritten, hwritten ▸ escape_faithful.2.2.2.1 _, ?_⟩
  refine escape_faithful.2.2.1 "&lt; \"<\"" "&amp;lt; &quot;".toList "lt;&quot;".toList ?_
  rw [hwritten]
  decide +kernel

end HeapLatency.Markup
