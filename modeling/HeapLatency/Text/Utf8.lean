/-!
# UTF-8

Bytes of text. A byte string is read as a list of pieces: characters, and malformed pieces
that begin no character. A malformed piece ends before the first byte that rules its
character out. Strict decoding refuses a string with a malformed piece; lenient decoding
shows each as the replacement character.
-/

namespace HeapLatency

abbrev Bytes := List UInt8

namespace Utf8

def encode (text : List Char) : Bytes := text.flatMap String.utf8EncodeChar

def isTail (b : UInt8) : Bool := 0x80 ≤ b && b ≤ 0xBF

/-- Bytes a character goes on for after its first byte. No character begins with the others. -/
def tailCount (first : UInt8) : Option Nat :=
  if first ≤ 0x7F then some 0
  else if 0xC2 ≤ first ∧ first ≤ 0xDF then some 1
  else if 0xE0 ≤ first ∧ first ≤ 0xEF then some 2
  else if 0xF0 ≤ first ∧ first ≤ 0xF4 then some 3
  else none

/-- A second byte that fits the first. Four first bytes narrow the range, which keeps out long
spellings, surrogates and code points past the last. -/
def fitsSecond (first second : UInt8) : Bool :=
  isTail second &&
    (if first = 0xE0 then 0xA0 ≤ second
    else if first = 0xED then second ≤ 0x9F
    else if first = 0xF0 then 0x90 ≤ second
    else if first = 0xF4 then second ≤ 0x8F
    else true)

def firstPayload (first : UInt8) : Nat → Nat
  | 0 => first.toNat
  | 1 => first.toNat % 0x20
  | 2 => first.toNat % 0x10
  | _ => first.toNat % 0x08

/-- Reads `count` further bytes onto a payload. `none` stands for a malformed piece. -/
def readTails (payload : Nat) : Nat → Bytes → Option Char × Bytes
  | 0, rest => (some (Char.ofNat payload), rest)
  | _ + 1, [] => (none, [])
  | count + 1, b :: rest =>
    if isTail b then readTails (payload * 0x40 + b.toNat % 0x40) count rest
    else (none, b :: rest)

def readPiece (first : UInt8) (rest : Bytes) : Option Char × Bytes :=
  match tailCount first, rest with
  | none, _ => (none, rest)
  | some 0, _ => (some (Char.ofNat first.toNat), rest)
  | some (_ + 1), [] => (none, [])
  | some (count + 1), second :: others =>
    if fitsSecond first second then
      readTails (firstPayload first (count + 1) * 0x40 + second.toNat % 0x40) count others
    else (none, second :: others)

def piecesUpTo : Nat → Bytes → List (Option Char)
  | 0, _ => []
  | _ + 1, [] => []
  | limit + 1, first :: rest =>
    let (piece, after) := readPiece first rest
    piece :: piecesUpTo limit after

/-- All pieces of a byte string. Every piece has a byte, so the length bounds their number. -/
def pieces (bytes : Bytes) : List (Option Char) := piecesUpTo bytes.length bytes

def decode? (bytes : Bytes) : Option (List Char) := (pieces bytes).mapM id

/-- The text of a byte string, every malformed piece shown as the replacement character. -/
def decodeLenient (bytes : Bytes) : List Char := (pieces bytes).map (·.getD '\uFFFD')

end Utf8

def bytesOf (text : String) : Bytes := Utf8.encode text.toList

end HeapLatency
