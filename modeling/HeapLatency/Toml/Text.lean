import HeapLatency.Number.Decimal
import HeapLatency.Toml.Value

/-!
# TOML text

Blanks, comments, quoted texts and keys. A quoted text is in double quotes with escapes or in
single quotes without, and in three of either it may go over several lines.
-/

namespace HeapLatency.Toml

def isBlankChar (c : Char) : Bool := c = ' ' || c = '\t'

def skipBlanks (text : List Char) : List Char := text.dropWhile isBlankChar

def isPlain (c : Char) : Bool := c = '\t' || (0x20 ≤ c.toNat && c.toNat ≠ 0x7F)

def afterNewline? : List Char → Option (List Char)
  | '\n' :: rest => some rest
  | '\r' :: '\n' :: rest => some rest
  | _ => none

def skipComment (text : List Char) : List Char := text.dropWhile isPlain

/-- Goes to the next line past blanks and a comment; the end of the text ends the last line. -/
def endLine? (text : List Char) : Option (List Char) :=
  let rest := match skipBlanks text with
    | '#' :: comment => skipComment comment
    | rest => rest
  if rest.isEmpty then some [] else afterNewline? rest

/-- Skips blanks, comments and line ends. The limit bounds the number of lines. -/
def skipLines : Nat → List Char → List Char
  | 0, text => text
  | limit + 1, text =>
    match skipBlanks text with
    | '#' :: comment =>
      match afterNewline? (skipComment comment) with
      | some rest => skipLines limit rest
      | none => '#' :: comment
    | rest =>
      match afterNewline? rest with
      | some rest => skipLines limit rest
      | none => rest

def skipSpace (text : List Char) : List Char :=
  match text with
  | [] => []
  | c :: rest =>
    if isBlankChar c ∨ c = '\n' then skipSpace rest
    else if c = '\r' ∧ rest.head? = some '\n' then skipSpace rest
    else c :: rest

/-! ## Escapes -/

def hexValue (digits : List Char) : Nat :=
  digits.foldl (fun value c =>
    16 * value + if c.isDigit then c.toNat - '0'.toNat else c.toLower.toNat - 'a'.toNat + 10) 0

def isHexDigit (c : Char) : Bool := c.isDigit || ('a' ≤ c.toLower && c.toLower ≤ 'f')

def readCode (width : Nat) : TomlReader Char := fun text =>
  let digits := text.take width
  let code := hexValue digits
  if digits.length = width ∧ digits.all isHexDigit ∧ code.isValidChar then
    some (Char.ofNat code, text.drop width)
  else none

def readEscape : TomlReader Char
  | 'b' :: rest => some ('\x08', rest)
  | 't' :: rest => some ('\t', rest)
  | 'n' :: rest => some ('\n', rest)
  | 'f' :: rest => some ('\x0c', rest)
  | 'r' :: rest => some ('\r', rest)
  | '"' :: rest => some ('"', rest)
  | '\\' :: rest => some ('\\', rest)
  | 'u' :: rest => readCode 4 rest
  | 'U' :: rest => readCode 8 rest
  | _ => none

/-! ## Texts -/

/-- A text in double quotes after the first of them. The limit bounds its length. -/
def readBasic : Nat → TomlReader (List Char)
  | 0, _ => none
  | _ + 1, [] => none
  | _ + 1, '"' :: rest => some ([], rest)
  | limit + 1, '\\' :: rest => do
    let (c, rest) ← readEscape rest
    let (cs, rest) ← readBasic limit rest
    return (c :: cs, rest)
  | limit + 1, c :: rest =>
    if isPlain c then (readBasic limit rest).map fun (cs, rest) => (c :: cs, rest) else none

def readLiteral (text : List Char) : Option (List Char × List Char) :=
  let content := text.takeWhile fun c => isPlain c && c ≠ '\''
  match text.drop content.length with
  | '\'' :: rest => some (content, rest)
  | _ => none

/-- The end of a text in three quotes: up to two more quotes before them belong to the text. -/
def closeTriple (quote : Char) (text : List Char) : Option (List Char × List Char) :=
  let quotes := (text.takeWhile (· = quote)).length
  if quotes < 3 then none
  else
    let inside := Nat.min (quotes - 3) 2
    some (List.replicate inside quote, text.drop (inside + 3))

/-- A text of several lines after its opening quotes. A backslash at the end of a line joins it
to the next text. The limit bounds its length. -/
def readTriple (quote : Char) (escapes : Bool) : Nat → TomlReader (List Char)
  | 0, _ => none
  | limit + 1, text =>
    match closeTriple quote text with
    | some closed => some closed
    | none =>
      match text with
      | [] => none
      | c :: rest =>
        let go (first : List Char) (rest : List Char) : Option (List Char × List Char) :=
          (readTriple quote escapes limit rest).map fun (cs, rest) => (first ++ cs, rest)
        if c = '\\' && escapes then
          match afterNewline? (skipBlanks rest) with
          | some next => go [] (skipSpace next)
          | none => (readEscape rest).bind fun (c, rest) => go [c] rest
        else
          match afterNewline? (c :: rest) with
          | some next => go ['\n'] next
          | none => if isPlain c then go [c] rest else none

/-- A text of several lines, which does not begin with the end of the line of its quotes. -/
def readLines (quote : Char) (escapes : Bool) (text : List Char) :
    Option (List Char × List Char) :=
  let text := (afterNewline? text).getD text
  readTriple quote escapes (text.length + 1) text

def readText : TomlReader (List Char)
  | '"' :: '"' :: '"' :: rest => readLines '"' true rest
  | '\'' :: '\'' :: '\'' :: rest => readLines '\'' false rest
  | '"' :: rest => readBasic (rest.length + 1) rest
  | '\'' :: rest => readLiteral rest
  | _ => none

/-! ## Keys -/

def isKeyChar (c : Char) : Bool := c.isAlphanum || c = '-' || c = '_'

def readName : TomlReader (List Char)
  | '"' :: rest => readBasic (rest.length + 1) rest
  | '\'' :: rest => readLiteral rest
  | text =>
    let name := text.takeWhile isKeyChar
    if name.isEmpty then none else some (name, text.drop name.length)

def readNames : Nat → TomlReader (List (List Char))
  | 0, _ => none
  | limit + 1, text => do
    let (name, rest) ← readName (skipBlanks text)
    match skipBlanks rest with
    | '.' :: rest =>
      let (names, rest) ← readNames limit rest
      return (name :: names, rest)
    | rest => return ([name], rest)

/-- Names that a key may have, and arrays and tables that may be within each other. -/
def maxDepth : Nat := 79

def readKey : TomlReader (List (List Char)) := readNames maxDepth

end HeapLatency.Toml
