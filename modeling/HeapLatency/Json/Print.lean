import HeapLatency.Json.Value
import HeapLatency.Number.Spelling

/-!
# Writing JSON

Two layouts of the same data: all on one line, and indented by two spaces with an item a line.
A number that JSON cannot hold is written as null.
-/

namespace HeapLatency.Json

/-- A character within a text. Only quotes, backslashes and controls need an escape. -/
def escapeChar (c : Char) : String :=
  if c = '"' then "\\\""
  else if c = '\\' then "\\\\"
  else if c = '\n' then "\\n"
  else if c = '\r' then "\\r"
  else if c = '\t' then "\\t"
  else if c.toNat = 8 then "\\b"
  else if c.toNat = 12 then "\\f"
  else if c.toNat < 0x20 then
    "\\u00" ++ (if c.toNat < 0x10 then "0" else "") ++
      String.ofList (Nat.toDigits 16 c.toNat)
  else c.toString

def quoteText (text : String) : String :=
  "\"" ++ String.join (text.toList.map escapeChar) ++ "\""

def openBrace : String := "\x7b"

def closeBrace : String := "\x7d"

/-- The text of a value without parts; nothing for the others. -/
def scalarText : Json → String
  | .null => "null"
  | .bool value => if value then "true" else "false"
  | .integer value => intText value
  | .real value => value.dataText?.getD "null"
  | .text value => quoteText value
  | .list _ | .record _ => ""

mutual

def compact : Json → String
  | .list items => "[" ++ ",".intercalate (compactItems items) ++ "]"
  | .record fields => openBrace ++ ",".intercalate (compactFields fields) ++ closeBrace
  | value => value.scalarText

def compactItems : List Json → List String
  | [] => []
  | item :: items => item.compact :: compactItems items

def compactFields : List (String × Json) → List String
  | [] => []
  | (name, value) :: fields => (quoteText name ++ ":" ++ value.compact) :: compactFields fields

end

def indent (depth : Nat) : String := String.ofList (List.replicate (2 * depth) ' ')

def block (opening closing : String) (depth : Nat) (lines : List String) : String :=
  if lines.isEmpty then opening ++ closing
  else
    opening ++ "\n" ++ ",\n".intercalate (lines.map fun line => indent (depth + 1) ++ line) ++
      "\n" ++ indent depth ++ closing

mutual

/-- The value with one item a line, its own first line standing at a depth. -/
def layout (depth : Nat) : Json → String
  | .list items => block "[" "]" depth (layoutItems depth items)
  | .record fields => block openBrace closeBrace depth (layoutFields depth fields)
  | value => value.scalarText

def layoutItems (depth : Nat) : List Json → List String
  | [] => []
  | item :: items => item.layout (depth + 1) :: layoutItems depth items

def layoutFields (depth : Nat) : List (String × Json) → List String
  | [] => []
  | (name, value) :: fields =>
    (quoteText name ++ ": " ++ value.layout (depth + 1)) :: layoutFields depth fields

end

def pretty (value : Json) : String := value.layout 0

end HeapLatency.Json
