/-!
# Markup

Documents of nested elements. Text is escaped when it is written; a verbatim part is written as
it is, and its author answers for it.
-/

namespace HeapLatency

/-- A part of a document. -/
inductive Markup where
  | element (name : String) (attributes : List (String × String)) (children : List Markup)
  | text (content : String)
  | verbatim (content : String)
  deriving Inhabited

namespace Markup

/-- A character of text, the four that mark structure by their entities. -/
def escapeChar (c : Char) : List Char :=
  if c = '&' then "&amp;".toList
  else if c = '<' then "&lt;".toList
  else if c = '>' then "&gt;".toList
  else if c = '"' then "&quot;".toList
  else [c]

def escape (text : String) : String := String.ofList (text.toList.flatMap escapeChar)

def attributesText (attributes : List (String × String)) : String :=
  String.join (attributes.map fun (name, value) => " " ++ name ++ "=\"" ++ value ++ "\"")

mutual

/-- The document as text. An element without children has one tag. -/
def render : Markup → String
  | .element name attributes children =>
    match children with
    | [] => "<" ++ name ++ attributesText attributes ++ "/>"
    | _ :: _ =>
      "<" ++ name ++ attributesText attributes ++ ">" ++ renderAll children ++
        "</" ++ name ++ ">"
  | .text content => escape content
  | .verbatim content => content

def renderAll : List Markup → String
  | [] => ""
  | part :: parts => part.render ++ renderAll parts

end

end Markup

end HeapLatency
