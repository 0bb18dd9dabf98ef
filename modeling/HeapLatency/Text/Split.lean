import HeapLatency.Text.Utf8

/-!
# Pieces of text

Text without the blanks around it, a list cut at every occurrence of a separator, and the lines of
a byte string. There is always one piece more than there are separators. A line ends at a line
feed, and one carriage return before the line feed belongs to the ending. Bytes after the last line
feed are a line of their own, taken as they are; an empty rest is none.
-/

namespace HeapLatency

/-! ## Blanks -/

/-- White space: the ASCII blanks and the blanks of other scripts. -/
def isBlank (c : Char) : Bool :=
  let n := c.toNat
  (0x9 ≤ n && n ≤ 0xD) || n == 0x20 || n == 0x85 || n == 0xA0 || n == 0x1680 ||
    (0x2000 ≤ n && n ≤ 0x200A) || n == 0x2028 || n == 0x2029 || n == 0x202F ||
    n == 0x205F || n == 0x3000

def trim (text : List Char) : List Char :=
  (((text.dropWhile isBlank).reverse).dropWhile isBlank).reverse

/-! ## Separators -/

section Separator

variable {α : Type} [DecidableEq α]

/-- The pieces between separators, empty ones included. -/
def splitOn (separator : α) : List α → List (List α)
  | [] => [[]]
  | a :: rest =>
    if a = separator then [] :: splitOn separator rest
    else
      match splitOn separator rest with
      | [] => [[a]]
      | piece :: pieces => (a :: piece) :: pieces

theorem splitOn_ne_nil (separator : α) (list : List α) : splitOn separator list ≠ [] := by
  cases list with
  | nil => simp [splitOn]
  | cons a rest =>
    simp only [splitOn]
    split
    · simp
    · split <;> simp

end Separator

/-! ## Lines -/

namespace Lines

def lineFeed : UInt8 := 0x0A

def carriageReturn : UInt8 := 0x0D

def dropReturn (line : Bytes) : Bytes :=
  if line.getLast? = some carriageReturn then line.dropLast else line

/-- The lines among the pieces between line feeds. -/
def ofPieces : List Bytes → List Bytes
  | [] => []
  | [rest] => if rest.isEmpty then [] else [rest]
  | line :: next :: pieces => dropReturn line :: ofPieces (next :: pieces)

end Lines

def linesOf (bytes : Bytes) : List Bytes := Lines.ofPieces (splitOn Lines.lineFeed bytes)

end HeapLatency
