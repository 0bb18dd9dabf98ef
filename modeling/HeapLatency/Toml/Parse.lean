import HeapLatency.Toml.Number
import HeapLatency.Toml.Table

/-!
# Reading TOML

A file is a sequence of lines: headers of tables and pairs of a key and a value, with blanks and
comments between them.
-/

namespace HeapLatency.Toml

def splitKey (names : List (List Char)) : List (List Char) × List Char :=
  (names.dropLast, names.getLast?.getD [])

/-- Items with a comma between them. After a comma there has to be another item, or the comma is
not taken. The limit bounds the number of items. -/
def readSeparated {α : Type} (item : TomlReader α) : Nat → List Char → List α × List Char
  | 0, text => ([], text)
  | limit + 1, text =>
    match item text with
    | none => ([], text)
    | some (value, ',' :: rest) =>
      match readSeparated item limit rest with
      | ([], _) => ([value], ',' :: rest)
      | (values, rest) => (value :: values, rest)
    | some (value, rest) => ([value], rest)

/-- The items of an array after its bracket. A comma may follow the last of them. -/
def readArray (value : TomlReader Toml) : TomlReader Toml := fun text => do
  let item : TomlReader Toml := fun text => do
    let (value, rest) ← value (skipLines text.length text)
    return (value, skipLines rest.length rest)
  let (items, rest) := readSeparated item (text.length + 1) text
  let rest := match items, rest with
    | _ :: _, ',' :: rest => rest
    | _, rest => rest
  match skipLines rest.length rest with
  | ']' :: rest => return (.array items, rest)
  | _ => none

def readPair (value : TomlReader Toml) : TomlReader (List (List Char) × List Char × Toml) :=
  fun text => do
    let (names, rest) ← readKey text
    let rest ← expectChar '=' rest
    let (value, rest) ← value (skipBlanks rest)
    let (path, name) := splitKey names
    return ((path, name, value), skipBlanks rest)

/-- The pairs of a table after its brace. No comma follows the last of them. -/
def readInline (value : TomlReader Toml) : TomlReader Toml := fun text => do
  let (pairs, rest) := readSeparated (readPair value) (text.length + 1) text
  match skipBlanks rest with
  | '\x7d' :: rest =>
    let fields ← inlineFields pairs
    return (.table .inline fields, rest)
  | _ => none

/-- A value. The limit bounds the arrays and tables that it may have within each other. -/
def readValue : Nat → TomlReader Toml
  | _, '"' :: rest => (readText ('"' :: rest)).map fun (text, rest) => (.string text, rest)
  | _, '\'' :: rest => (readText ('\'' :: rest)).map fun (text, rest) => (.string text, rest)
  | 0, '[' :: _ => none
  | limit + 1, '[' :: rest => readArray (readValue limit) rest
  | 0, '\x7b' :: _ => none
  | limit + 1, '\x7b' :: rest => readInline (readValue limit) rest
  | _, 't' :: 'r' :: 'u' :: 'e' :: rest => some (.bool true, rest)
  | _, 'f' :: 'a' :: 'l' :: 's' :: 'e' :: rest => some (.bool false, rest)
  | _, text => readNumber text

def readHeader (closing : List Char) : TomlReader (List (List Char) × List Char) := fun text => do
  let (names, rest) ← readKey text
  if closing.isPrefixOf rest then
    let rest ← endLine? (rest.drop closing.length)
    return (splitKey names, rest)
  else none

def readLine : TomlReader Line
  | '[' :: '[' :: rest => do
    let ((path, name), rest) ← readHeader [']', ']'] rest
    return (.another path name, rest)
  | '[' :: rest => do
    let ((path, name), rest) ← readHeader [']'] rest
    return (.header path name, rest)
  | text => do
    let ((path, name, value), rest) ← readPair (readValue maxDepth) text
    let rest ← endLine? rest
    return (.pair path name value, rest)

/-- The lines of a file onto a draft. The limit bounds their number. -/
def readFrom : Nat → Draft → List Char → Option TomlFields
  | 0, _, _ => none
  | limit + 1, draft, text =>
    match skipBlanks text with
    | [] => some draft.fields
    | c :: rest =>
      if c = '#' ∨ c = '\n' ∨ c = '\r' then do
        let next ← endLine? (c :: rest)
        readFrom limit draft next
      else do
        let (line, next) ← readLine (c :: rest)
        let draft ← draft.add line
        readFrom limit draft next

/-- The fields of a file. A byte order mark in front of it does not count. -/
def parse? (text : List Char) : Option TomlFields :=
  let text := if text.head? = some '\uFEFF' then text.drop 1 else text
  readFrom (text.length + 1) {} text

end HeapLatency.Toml
