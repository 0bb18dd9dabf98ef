import HeapLatency.Number.Decimal
import HeapLatency.Text.Utf8

/-!
# Scanning JSON

The words, numbers and texts of JSON at the front of a byte string. A number is read in one
pass: digits are gathered as long as they fit into 64 bits, and the result is scaled by powers
of ten with one rounding each, so a long number may differ from the nearest one in its last
place.
-/

namespace HeapLatency

inductive JsonFault where
  /-- The input ends inside a value. -/
  | endOfInput
  /-- The input is not JSON. -/
  | malformed
  /-- The input is JSON, but not of the kind or the form that was asked for. -/
  | mismatch
  deriving DecidableEq, Repr

abbrev JsonReader (α : Type) := Bytes → Except JsonFault (α × Bytes)

/-- A number as it was written: whole and within 64 bits, or any other. -/
inductive JsonNumber where
  | whole (value : Int)
  | real (value : Binary64)

namespace JsonNumber

def toBinary64 : JsonNumber → Binary64
  | .whole value => .ofInt value
  | .real value => value

end JsonNumber

namespace JsonScan

def byte (c : Char) : UInt8 := UInt8.ofNat c.toNat

def isBlankByte (b : UInt8) : Bool := b == 0x20 || b == 0x0A || b == 0x09 || b == 0x0D

def skipBlanks (bytes : Bytes) : Bytes := bytes.dropWhile isBlankByte

def isDigitByte (b : UInt8) : Bool := byte '0' ≤ b && b ≤ byte '9'

def digitValue (b : UInt8) : Nat := b.toNat - '0'.toNat

def startsWithDigit (bytes : Bytes) : Bool := bytes.head?.any isDigitByte

def startsWithExponent (bytes : Bytes) : Bool :=
  bytes.head?.any fun b => b == byte 'e' || b == byte 'E'

def readWord : List Char → JsonReader Unit
  | [], rest => .ok ((), rest)
  | _ :: _, [] => .error .endOfInput
  | c :: word, b :: rest => if b = byte c then readWord word rest else .error .malformed

/-! ## Numbers -/

/-- Digits onto a value while it fits into 64 bits: the value, the number of digits taken and
the rest. -/
def gather (value count : Nat) : Bytes → Nat × Nat × Bytes
  | [] => (value, count, [])
  | b :: rest =>
    if isDigitByte b && 10 * value + digitValue b ≤ maxWord then
      gather (10 * value + digitValue b) (count + 1) rest
    else (value, count, b :: rest)

def maxPower : Nat := 308

/-- `value * 10 ^ exponent` by one multiplication or by divisions; nothing if it is past the
largest number. A value reaches zero after few divisions, which ends them. -/
def scale : Nat → Binary64 → Int → Option Binary64
  | 0, value, _ => some value
  | limit + 1, value, exponent =>
    if exponent.natAbs ≤ maxPower then
      if 0 ≤ exponent then
        let scaled := value * .ofNat (Nat.pow 10 exponent.natAbs)
        if scaled.isFinite then some scaled else none
      else some (value / .ofNat (Nat.pow 10 exponent.natAbs))
    else if value.same 0 then some value
    else if 0 ≤ exponent then none
    else scale limit (value / .ofNat (Nat.pow 10 maxPower)) (exponent + maxPower)

def real (negative : Bool) (digits : Nat) (exponent : Int) (rest : Bytes) :
    Except JsonFault (JsonNumber × Bytes) :=
  match scale (exponent.natAbs / maxPower + 1) (.ofNat digits) exponent with
  | some value => .ok (.real (if negative then -value else value), rest)
  | none => .error .malformed

/-- The greatest exponent that is counted; past it a number is zero or out of range. -/
def maxExponent : Nat := 2147483647

def exponent (negative : Bool) (digits : Nat) (start : Int) : JsonReader JsonNumber := fun bytes =>
  let (down, bytes) :=
    match bytes with
    | [] => (false, [])
    | b :: rest =>
      if b = byte '+' then (false, rest)
      else if b = byte '-' then (true, rest)
      else (false, b :: rest)
  if bytes.isEmpty then .error .endOfInput
  else if !startsWithDigit bytes then .error .malformed
  else
    let power := (bytes.takeWhile isDigitByte).foldl (fun n b => 10 * n + digitValue b) 0
    let rest := bytes.dropWhile isDigitByte
    if maxExponent < power then
      if digits ≠ 0 ∧ !down then .error .malformed else .ok (.real (.zero negative), rest)
    else real negative digits (if down then start - power else start + power) rest

/-- What may follow digits: an exponent, or the end of the number. -/
def realEnd (negative : Bool) (digits : Nat) (start : Int) : JsonReader JsonNumber := fun bytes =>
  if startsWithExponent bytes then exponent negative digits start (bytes.drop 1)
  else real negative digits start bytes

/-- The digits after a point. Those that no longer fit are dropped. -/
def fraction (negative : Bool) (digits : Nat) (start : Int) : JsonReader JsonNumber := fun bytes =>
  let (value, count, rest) := gather digits 0 bytes
  if count = 0 ∧ !startsWithDigit rest then
    .error (if rest.isEmpty then .endOfInput else .malformed)
  else realEnd negative value (start - count) (rest.dropWhile isDigitByte)

/-- A whole number with its sign, or a real one where no whole number of 64 bits fits. -/
def wholeOf (negative : Bool) (digits : Nat) : JsonNumber :=
  if negative then
    if digits = 0 ∨ maxSigned + 1 < digits then .real (-.ofNat digits) else .whole (-digits)
  else .whole digits

def numberEnd (negative : Bool) (digits : Nat) : JsonReader JsonNumber := fun bytes =>
  if startsWithDigit bytes then
    let dropped := (bytes.takeWhile isDigitByte).length
    let rest := bytes.drop dropped
    if rest.head? = some (byte '.') then fraction negative digits dropped (rest.drop 1)
    else realEnd negative digits dropped rest
  else if bytes.head? = some (byte '.') then fraction negative digits 0 (bytes.drop 1)
  else if startsWithExponent bytes then exponent negative digits 0 (bytes.drop 1)
  else .ok (wholeOf negative digits, bytes)

def readUnsigned (negative : Bool) : JsonReader JsonNumber
  | [] => .error .endOfInput
  | b :: rest =>
    if b = byte '0' then
      if startsWithDigit rest then .error .malformed else numberEnd negative 0 rest
    else if isDigitByte b then
      let (value, _, rest) := gather 0 0 (b :: rest)
      numberEnd negative value rest
    else .error .malformed

/-- Skips a number without its sign. Here an input that ends too early is malformed. -/
def skipUnsigned (bytes : Bytes) : Except JsonFault Bytes :=
  let digits := bytes.takeWhile isDigitByte
  let rest := bytes.drop digits.length
  if digits.isEmpty || (digits.head? == some (byte '0') && digits.length != 1) then
    .error .malformed
  else
    let exponent (bytes : Bytes) : Except JsonFault Bytes :=
      if startsWithExponent bytes then
        let after := bytes.drop 1
        let after :=
          if after.head? = some (byte '+') ∨ after.head? = some (byte '-') then after.drop 1
          else after
        if startsWithDigit after then .ok (after.dropWhile isDigitByte) else .error .malformed
      else .ok bytes
    if rest.head? = some (byte '.') then
      if startsWithDigit (rest.drop 1) then exponent ((rest.drop 1).dropWhile isDigitByte)
      else .error .malformed
    else exponent rest

/-! ## Texts -/

def hexValue? (b : UInt8) : Option Nat :=
  if isDigitByte b then some (digitValue b)
  else if byte 'a' ≤ b ∧ b ≤ byte 'f' then some (b.toNat - 'a'.toNat + 10)
  else if byte 'A' ≤ b ∧ b ≤ byte 'F' then some (b.toNat - 'A'.toNat + 10)
  else none

def readHex : JsonReader Nat
  | a :: b :: c :: d :: rest =>
    match hexValue? a, hexValue? b, hexValue? c, hexValue? d with
    | some a, some b, some c, some d => .ok (((a * 16 + b) * 16 + c) * 16 + d, rest)
    | _, _, _, _ => .error .malformed
  | _ => .error .endOfInput

def isLeading (unit : Nat) : Bool := 0xD800 ≤ unit && unit ≤ 0xDBFF

def isTrailing (unit : Nat) : Bool := 0xDC00 ≤ unit && unit ≤ 0xDFFF

/-- The second half of a character that is written as two units. -/
def readTrailing (leading : Nat) : JsonReader Bytes
  | [] => .error .endOfInput
  | b :: rest =>
    if b ≠ byte '\\' then .error .malformed
    else
      match rest with
      | [] => .error .endOfInput
      | u :: rest =>
        if u ≠ byte 'u' then .error .malformed
        else do
          let (trailing, rest) ← readHex rest
          if isTrailing trailing then
            let code := (leading - 0xD800) * 0x400 + (trailing - 0xDC00) + 0x10000
            return (Utf8.encode [Char.ofNat code], rest)
          else throw .malformed

def readUnit : JsonReader Bytes := fun bytes => do
  let (unit, rest) ← readHex bytes
  if isTrailing unit then throw .malformed
  else if isLeading unit then readTrailing unit rest
  else return (Utf8.encode [Char.ofNat unit], rest)

/-- What an escape after a backslash stands for. In a text that is skipped, a number is not
checked for being a character. -/
def readEscape (strict : Bool) : JsonReader Bytes
  | [] => .error .endOfInput
  | b :: rest =>
    if b = byte '"' ∨ b = byte '\\' ∨ b = byte '/' then .ok ([b], rest)
    else if b = byte 'b' then .ok ([0x08], rest)
    else if b = byte 'f' then .ok ([0x0C], rest)
    else if b = byte 'n' then .ok ([0x0A], rest)
    else if b = byte 'r' then .ok ([0x0D], rest)
    else if b = byte 't' then .ok ([0x09], rest)
    else if b = byte 'u' then
      if strict then readUnit rest else (readHex rest).map fun (_, rest) => ([], rest)
    else .error .malformed

/-- The bytes of a text up to its closing quote; `reversed` holds those before. The limit bounds
the number of characters and escapes. -/
def textFrom (strict : Bool) : Nat → Bytes → JsonReader Bytes
  | 0, _, _ => .error .endOfInput
  | _ + 1, _, [] => .error .endOfInput
  | limit + 1, reversed, b :: rest =>
    if b = byte '"' then .ok (reversed.reverse, rest)
    else if b = byte '\\' then
      match readEscape strict rest with
      | .error fault => .error fault
      | .ok (piece, rest) => textFrom strict limit (piece.reverse ++ reversed) rest
    else if b < 0x20 then .error .malformed
    else textFrom strict limit (b :: reversed) rest

def readText : JsonReader (List Char) := fun bytes => do
  let (content, rest) ← textFrom true (bytes.length + 1) [] bytes
  match Utf8.decode? content with
  | some text => return (text, rest)
  | none => throw .malformed

def skipText (bytes : Bytes) : Except JsonFault Bytes :=
  (textFrom false (bytes.length + 1) [] bytes).map (·.2)

end JsonScan

end HeapLatency
