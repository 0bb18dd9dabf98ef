import HeapLatency.Proofs.Markup.Reading

/-!
# Rendered markup

What a reader finds in a document that was rendered: the very elements and texts that it was
rendered from. This asks for names and values that a tag can be made of, and for texts that stand
alone in their elements.
-/

namespace HeapLatency.Markup

mutual

/-- The tokens that a document is written as. -/
def tokens : Markup → List Token
  | .element name attributes children =>
    match children with
    | [] => [.single name attributes]
    | _ :: _ => .opening name attributes :: (tokensAll children ++ [.closing name])
  | .text content => content.toList.map .char
  | .verbatim content => content.toList.map .char

def tokensAll : List Markup → List Token
  | [] => []
  | part :: parts => part.tokens ++ tokensAll parts

end

/-- The text of an element that has nothing else in it. -/
def ownText? : List Markup → Option String
  | [.text content] => some content
  | [.verbatim content] => some content
  | _ => none

mutual

/-- The texts that a document puts into elements of their own, with the elements around each. -/
def texts (around : List String) : Markup → List (List String × String)
  | .element name _ children =>
    match ownText? children with
    | some content => [(around ++ [name], content)]
    | none => textsAll (around ++ [name]) children
  | .text _ => []
  | .verbatim _ => []

def textsAll (around : List String) : List Markup → List (List String × String)
  | [] => []
  | part :: parts => part.texts around ++ textsAll around parts

end

/-- An element with a text of its own or with elements, all of which can be read back. -/
inductive Regular : Markup → Prop
  | empty {name : String} {attributes : List (String × String)} (h : Taggable name attributes) :
      Regular (.element name attributes [])
  | text {name : String} {attributes : List (String × String)} (h : Taggable name attributes)
      (content : String) : Regular (.element name attributes [.text content])
  | verbatim {name : String} {attributes : List (String × String)} (h : Taggable name attributes)
      {content : String} (hcontent : Literal content.toList) :
      Regular (.element name attributes [.verbatim content])
  | elements {name : String} {attributes : List (String × String)} (h : Taggable name attributes)
      {first : Markup} {others : List Markup}
      (hparts : ∀ part ∈ first :: others, Regular part) :
      Regular (.element name attributes (first :: others))

theorem renderAll_append (parts others : List Markup) :
    renderAll (parts ++ others) = renderAll parts ++ renderAll others := by
  induction parts with
  | nil => rw [List.nil_append, renderAll, String.empty_append]
  | cons part parts ih => rw [List.cons_append, renderAll, renderAll, ih, String.append_assoc]

theorem render_element {children : List Markup} (h : children ≠ []) (name : String)
    (attributes : List (String × String)) :
    (Markup.element name attributes children).render =
      "<" ++ name ++ attributesText attributes ++ ">" ++ renderAll children ++
        "</" ++ name ++ ">" := by
  cases children with
  | nil => exact absurd rfl h
  | cons first others => rw [render]

theorem tokensAll_eq_flatMap (parts : List Markup) : tokensAll parts = parts.flatMap tokens := by
  induction parts with
  | nil => rfl
  | cons part parts ih => rw [tokensAll, ih, List.flatMap_cons]

theorem textsAll_eq_flatMap (around : List String) (parts : List Markup) :
    textsAll around parts = parts.flatMap (texts around) := by
  induction parts with
  | nil => rfl
  | cons part parts ih => rw [textsAll, ih, List.flatMap_cons]

theorem tokens_cons (name : String) (attributes : List (String × String)) (first : Markup)
    (others : List Markup) :
    tokens (.element name attributes (first :: others)) =
      .opening name attributes :: (tokensAll (first :: others) ++ [.closing name]) := rfl

/-! ## The characters of a document -/

mutual

/-- The characters of a document, one by one. -/
def chars : Markup → List Char
  | .element name attributes children =>
    match children with
    | [] => '<' :: ((name.toList ++ attributeChars attributes ++ ['/']) ++ ['>'])
    | _ :: _ =>
      '<' :: ((name.toList ++ attributeChars attributes) ++
        '>' :: (charsAll children ++ '<' :: (('/' :: name.toList) ++ ['>'])))
  | .text content => (escape content).toList
  | .verbatim content => content.toList

def charsAll : List Markup → List Char
  | [] => []
  | part :: parts => part.chars ++ charsAll parts

end

mutual

theorem toList_render : (markup : Markup) → markup.render.toList = markup.chars
  | .element name attributes [] => by
    rw [render, chars]
    simp [String.toList_append, toList_attributesText]
  | .element name attributes (first :: others) => by
    rw [render, chars]
    simp [String.toList_append, toList_attributesText, toList_renderAll (first :: others)]
  | .text content => by rw [render, chars]
  | .verbatim content => by rw [render, chars]

theorem toList_renderAll : (parts : List Markup) → (renderAll parts).toList = charsAll parts
  | [] => rfl
  | part :: parts => by
    rw [renderAll, charsAll, String.toList_append, toList_render part, toList_renderAll parts]

end

theorem chars_empty (name : String) (attributes : List (String × String)) :
    chars (.element name attributes []) =
      '<' :: ((name.toList ++ attributeChars attributes ++ ['/']) ++ ['>']) := rfl

theorem chars_cons (name : String) (attributes : List (String × String)) (first : Markup)
    (others : List Markup) :
    chars (.element name attributes (first :: others)) =
      '<' :: ((name.toList ++ attributeChars attributes) ++
        '>' :: (charsAll (first :: others) ++ '<' :: (('/' :: name.toList) ++ ['>']))) := rfl

theorem chars_cons_append (name : String) (attributes : List (String × String)) (first : Markup)
    (others : List Markup) (rest : List Char) :
    chars (.element name attributes (first :: others)) ++ rest =
      '<' :: ((name.toList ++ attributeChars attributes) ++
        '>' :: (charsAll (first :: others) ++ '<' :: (('/' :: name.toList) ++ '>' :: rest))) := by
  rw [chars_cons]
  simp

/-! ## Reading back -/

theorem readFrom_charsAll {parts : List Markup}
    (h : ∀ part ∈ parts, ∀ rest, readFrom .content (part.chars ++ rest) =
      (readFrom .content rest).map (part.tokens ++ ·)) (rest : List Char) :
    readFrom .content (charsAll parts ++ rest) =
      (readFrom .content rest).map (tokensAll parts ++ ·) := by
  induction parts with
  | nil => exact Option.map_id'.symm
  | cons part parts ih =>
    rw [charsAll, List.append_assoc, h part List.mem_cons_self,
      ih fun other hother => h other (List.mem_cons_of_mem part hother), Option.map_map]
    congr 1
    funext others
    exact (List.append_assoc _ _ _).symm

theorem readFrom_element {name : String} {attributes : List (String × String)} {first : Markup}
    {others : List Markup} (h : Taggable name attributes)
    (hparts : ∀ part ∈ first :: others, ∀ rest, readFrom .content (part.chars ++ rest) =
      (readFrom .content rest).map (part.tokens ++ ·)) (rest : List Char) :
    readFrom .content (chars (.element name attributes (first :: others)) ++ rest) =
      (readFrom .content rest).map
        (tokens (.element name attributes (first :: others)) ++ ·) := by
  have hclosing : Inside ('/' :: name.toList) :=
    .cons (by decide) (plain_of_name h.name).inside
  rw [chars_cons_append, readFrom_bracket h.inside h.tag?_opening, readFrom_charsAll hparts,
    readFrom_bracket hclosing h.tag?_closing, Option.map_map, Option.map_map, tokens_cons]
  congr 1
  funext others
  simp

theorem Regular.readFrom {markup : Markup} (h : Regular markup) (rest : List Char) :
    readFrom .content (markup.chars ++ rest) =
      (readFrom .content rest).map (markup.tokens ++ ·) := by
  induction h generalizing rest with
  | empty h =>
    rw [chars_empty, List.cons_append, List.append_assoc, List.singleton_append,
      readFrom_bracket (h.inside.append (.cons (by decide) (List.forall_mem_nil _))) h.tag?_single]
    rfl
  | text h content =>
    refine readFrom_element h (List.forall_mem_singleton.2 fun rest => ?_) rest
    rw [chars, tokens]
    exact readFrom_escape content rest
  | verbatim h hcontent =>
    refine readFrom_element h (List.forall_mem_singleton.2 fun rest => ?_) rest
    rw [chars, tokens]
    exact readFrom_literal hcontent rest
  | elements h hparts ih => exact readFrom_element h (fun part hpart => ih part hpart) rest

theorem Regular.read {markup : Markup} (h : Regular markup) :
    read markup.render = some markup.tokens := by
  have hread := h.readFrom []
  rw [List.append_nil] at hread
  rw [Markup.read, toList_render, hread, Markup.readFrom, Option.map_some, List.append_nil]

/-! ## Nesting -/

theorem nested_chars (text : List Char) {rest : List Token} (h : Nested rest) :
    Nested (text.map .char ++ rest) := by
  induction text with
  | nil => exact h
  | cons c text ih => exact .char c ih

theorem nested_tokensAll {parts : List Markup}
    (h : ∀ part ∈ parts, ∀ rest, Nested rest → Nested (part.tokens ++ rest)) {rest : List Token}
    (hrest : Nested rest) : Nested (tokensAll parts ++ rest) := by
  induction parts with
  | nil => exact hrest
  | cons part parts ih =>
    rw [tokensAll, List.append_assoc]
    exact h part List.mem_cons_self _ (ih fun other hother =>
      h other (List.mem_cons_of_mem part hother))

theorem nested_tokensAll_nil {parts : List Markup}
    (h : ∀ part ∈ parts, ∀ rest, Nested rest → Nested (part.tokens ++ rest)) :
    Nested (tokensAll parts) := by
  have hnested := nested_tokensAll h .nil
  rwa [List.append_nil] at hnested

theorem nested_element (name : String) (attributes : List (String × String)) {first : Markup}
    {others : List Markup}
    (h : ∀ part ∈ first :: others, ∀ rest, Nested rest → Nested (part.tokens ++ rest))
    {rest : List Token} (hrest : Nested rest) :
    Nested (tokens (.element name attributes (first :: others)) ++ rest) := by
  rw [tokens_cons, List.cons_append, List.append_assoc, List.singleton_append]
  exact .element name attributes (nested_tokensAll_nil h) hrest

theorem Regular.nested_append {markup : Markup} (h : Regular markup) {rest : List Token}
    (hrest : Nested rest) : Nested (markup.tokens ++ rest) := by
  induction h generalizing rest with
  | empty h => exact .single _ _ hrest
  | text h content =>
    exact nested_element _ _ (List.forall_mem_singleton.2 fun _ => nested_chars _) hrest
  | verbatim h hcontent =>
    exact nested_element _ _ (List.forall_mem_singleton.2 fun _ => nested_chars _) hrest
  | elements h hparts ih => exact nested_element _ _ (fun part hpart _ => ih part hpart) hrest

theorem Regular.nested {name : String} {attributes : List (String × String)} {first : Markup}
    {others : List Markup} (h : Regular (.element name attributes (first :: others))) :
    Nested (tokensAll (first :: others)) := by
  cases h with
  | text h content =>
    exact nested_tokensAll_nil (List.forall_mem_singleton.2 fun _ => nested_chars _)
  | verbatim h hcontent =>
    exact nested_tokensAll_nil (List.forall_mem_singleton.2 fun _ => nested_chars _)
  | elements h hparts =>
    exact nested_tokensAll_nil fun part hpart _ => (hparts part hpart).nested_append

/-! ## Texts -/

theorem textsFrom_chars (around : List String) (seen text : List Char) (rest : List Token) :
    textsFrom around (some seen) (text.map .char ++ rest) =
      textsFrom around (some (text.reverse ++ seen)) rest := by
  induction text generalizing seen with
  | nil => rfl
  | cons c text ih =>
    rw [List.map_cons, List.cons_append, textsFrom, Option.getD_some, ih, List.reverse_cons,
      List.append_assoc, List.singleton_append]

/-- The text of an element that has nothing else in it is found in it. -/
theorem textsFrom_own (around : List String) {seen : Option (List Char)}
    (hseen : between around seen = []) (name : String) (attributes : List (String × String))
    (content : String) (rest : List Token) :
    textsFrom around seen
        (.opening name attributes :: (content.toList.map .char ++ .closing name :: rest)) =
      (around.reverse ++ [name], content) :: textsFrom around none rest := by
  rw [textsFrom, hseen, List.nil_append, textsFrom_chars, textsFrom, List.append_nil,
    Option.toList_some, List.map_singleton, List.reverse_reverse, String.ofList_toList,
    List.reverse_cons]
  rfl

theorem textsFrom_tokensAll {parts : List Markup} (around : List String)
    (h : ∀ part ∈ parts, ∀ seen, between around seen = [] → ∀ rest,
      textsFrom around seen (part.tokens ++ rest) =
        part.texts around.reverse ++ textsFrom around none rest)
    (rest : List Token) :
    textsFrom around none (tokensAll parts ++ rest) =
      textsAll around.reverse parts ++ textsFrom around none rest := by
  induction parts with
  | nil => rfl
  | cons part parts ih =>
    rw [tokensAll, List.append_assoc, h part List.mem_cons_self none rfl,
      ih fun other hother => h other (List.mem_cons_of_mem part hother), textsAll,
      List.append_assoc]

/-- Between elements a reader finds the texts that the elements were given. -/
theorem Regular.textsFrom {markup : Markup} (h : Regular markup) (around : List String)
    (seen : Option (List Char)) (hseen : between around seen = []) (rest : List Token) :
    textsFrom around seen (markup.tokens ++ rest) =
      markup.texts around.reverse ++ textsFrom around none rest := by
  induction h generalizing around seen rest with
  | @empty name attributes h =>
    rw [tokens, List.singleton_append, Markup.textsFrom, hseen]
    rfl
  | @text name attributes h content =>
    rw [tokens_cons, tokensAll, tokensAll, tokens, List.append_nil, List.cons_append,
      List.append_assoc, List.singleton_append, textsFrom_own around hseen]
    rfl
  | @verbatim name attributes h content hcontent =>
    rw [tokens_cons, tokensAll, tokensAll, tokens, List.append_nil, List.cons_append,
      List.append_assoc, List.singleton_append, textsFrom_own around hseen]
    rfl
  | @elements name attributes h first others hparts ih =>
    have hown : ownText? (first :: others) = none := by
      cases hparts first List.mem_cons_self <;> rfl
    have hfirst := ih first List.mem_cons_self (name :: around) (some []) rfl
    have hothers (rest : List Token) :
        Markup.textsFrom (name :: around) none (tokensAll others ++ rest) =
          textsAll (name :: around).reverse others ++
            Markup.textsFrom (name :: around) none rest :=
      textsFrom_tokensAll (name :: around)
        (fun part hpart => ih part (List.mem_cons_of_mem first hpart) (name :: around)) rest
    rw [tokens_cons, tokensAll, List.cons_append, Markup.textsFrom, hseen, List.nil_append,
      List.append_assoc, List.append_assoc, hfirst, hothers, List.singleton_append,
      Markup.textsFrom, texts, hown, List.reverse_cons]
    simp [textsAll]

theorem Regular.textsOf {markup : Markup} (h : Regular markup) :
    textsOf markup.tokens = markup.texts [] := by
  have htexts := h.textsFrom [] none rfl []
  rw [List.append_nil] at htexts
  rw [Markup.textsOf, htexts]
  exact List.append_nil _

/-! ## Tags -/

def tags (markup : Markup) : List Token := tagsOf markup.tokens

theorem tagsOf_chars (text : List Char) : tagsOf (text.map .char) = [] := by
  induction text with
  | nil => rfl
  | cons c text ih => exact ih

theorem tagsOf_append (tokens others : List Token) :
    tagsOf (tokens ++ others) = tagsOf tokens ++ tagsOf others :=
  List.filter_append _ _

theorem tagsOf_tokensAll (parts : List Markup) : tagsOf (tokensAll parts) = parts.flatMap tags := by
  induction parts with
  | nil => rfl
  | cons part parts ih => rw [tokensAll, tagsOf_append, ih, List.flatMap_cons, tags]

theorem tags_text (content : String) : tags (.text content) = [] := by
  rw [tags, tokens, tagsOf_chars]

theorem tags_verbatim (content : String) : tags (.verbatim content) = [] := by
  rw [tags, tokens, tagsOf_chars]

theorem tags_cons (name : String) (attributes : List (String × String)) (first : Markup)
    (others : List Markup) :
    tags (.element name attributes (first :: others)) =
      .opening name attributes :: ((first :: others).flatMap tags ++ [.closing name]) := by
  rw [← tagsOf_tokensAll, tags, tokens_cons, tagsOf, List.filter_cons_of_pos rfl,
    List.filter_append]
  rfl

/-! ## Opening brackets -/

theorem count_lt_of_inside {body : List Char} (h : Inside body) : body.count '<' = 0 :=
  List.count_eq_zero.2 fun hmem => (h _ hmem).2.1 rfl

theorem count_lt_charsAll {parts : List Markup}
    (h : ∀ part ∈ parts, part.chars.count '<' = (tagsOf part.tokens).length) :
    (charsAll parts).count '<' = (tagsOf (tokensAll parts)).length := by
  induction parts with
  | nil => rfl
  | cons part parts ih =>
    rw [charsAll, List.count_append, h part List.mem_cons_self,
      ih fun other hother => h other (List.mem_cons_of_mem part hother), tokensAll, tagsOf_append,
      List.length_append]

theorem count_lt_element {name : String} {attributes : List (String × String)} {first : Markup}
    {others : List Markup} (h : Taggable name attributes)
    (hparts : ∀ part ∈ first :: others, part.chars.count '<' = (tagsOf part.tokens).length) :
    (chars (.element name attributes (first :: others))).count '<' =
      (tagsOf (tokens (.element name attributes (first :: others)))).length := by
  have hname := count_lt_of_inside (plain_of_name h.name).inside
  have hclosing : ([.closing name].filter Token.isTag).length = 1 := rfl
  rw [chars_cons, tokens_cons, tagsOf, List.filter_cons_of_pos rfl, List.filter_append,
    List.length_cons, List.length_append, List.count_cons_self, List.count_append,
    count_lt_of_inside h.inside, List.count_cons_of_ne (by decide), List.count_append,
    count_lt_charsAll hparts, List.count_cons_self, List.count_append,
    List.count_cons_of_ne (by decide), hname, hclosing]
  simp [tagsOf]

theorem Regular.count_lt {markup : Markup} (h : Regular markup) :
    markup.render.toList.count '<' = (tagsOf markup.tokens).length := by
  rw [toList_render]
  induction h with
  | @empty name attributes h =>
    rw [chars_empty, List.count_cons_self, List.count_append, List.count_append,
      count_lt_of_inside h.inside]
    rfl
  | text h content =>
    refine count_lt_element h (List.forall_mem_singleton.2 ?_)
    rw [chars, tokens, tagsOf_chars]
    exact List.count_eq_zero.2 (not_mem_escape (.inl rfl) content)
  | verbatim h hcontent =>
    refine count_lt_element h (List.forall_mem_singleton.2 ?_)
    rw [chars, tokens, tagsOf_chars]
    exact List.count_eq_zero.2 fun hmem => (hcontent _ hmem).2 rfl
  | elements h hparts ih => exact count_lt_element h ih

end HeapLatency.Markup
