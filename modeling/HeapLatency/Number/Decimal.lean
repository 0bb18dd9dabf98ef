import HeapLatency.Number.Binary64

/-!
# Decimal numbers

Reading decimal text. A literal is a natural number of digits and a power of ten; its value
is exact, and becomes a binary64 number by rounding once. Whole numbers are read with their
bounds, so that a value that does not fit is refused rather than wrapped.
-/

namespace HeapLatency

/-- The number `digits * 10 ^ exponent`. -/
structure Decimal where
  digits : Nat
  exponent : Int
  deriving DecidableEq, Repr

namespace Decimal

def ofDigits (text : List Char) : Nat :=
  text.foldl (fun value c => 10 * value + (c.toNat - '0'.toNat)) 0

def width (n : Nat) : Nat := (Nat.toDigits 10 n).length

/-- The nearest binary64 number. The first two cases are far past both ends of the format and
keep the power of ten small. -/
def toBinary64 (negative : Bool) (d : Decimal) : Binary64 :=
  if d.digits = 0 then .zero negative
  else if 309 < width d.digits + d.exponent then .infinite negative
  else if width d.digits + d.exponent < -324 then .zero negative
  else if 0 ≤ d.exponent then
    .ofExact negative (d.digits * Nat.pow 10 d.exponent.toNat * Binary64.unitsPerOne) 1
  else
    .ofExact negative (d.digits * Binary64.unitsPerOne) (Nat.pow 10 (-d.exponent).toNat)

def splitSign : List Char → Bool × List Char
  | '-' :: rest => (true, rest)
  | '+' :: rest => (false, rest)
  | text => (false, text)

def readDigits (text : List Char) : Option Nat :=
  if !text.isEmpty && text.all Char.isDigit then some (ofDigits text) else none

/-- The power of ten at the end of a literal: nothing, or `e` with an optional sign. -/
def readExponent : List Char → Option Int
  | [] => some 0
  | c :: rest =>
    if c = 'e' ∨ c = 'E' then
      let (negative, digits) := splitSign rest
      (readDigits digits).map fun n => if negative then -(n : Int) else n
    else none

/-- A literal without its sign: digits around an optional point, of which one side may be
empty, and an optional exponent. -/
def readUnsigned (text : List Char) : Option Decimal :=
  let whole := text.takeWhile Char.isDigit
  let rest := text.dropWhile Char.isDigit
  let (fraction, rest) :=
    match rest with
    | '.' :: after => (after.takeWhile Char.isDigit, after.dropWhile Char.isDigit)
    | _ => ([], rest)
  if whole.isEmpty && fraction.isEmpty then none
  else
    (readExponent rest).map fun exponent =>
      ⟨ofDigits (whole ++ fraction), exponent - fraction.length⟩

def readWord (negative : Bool) (text : List Char) : Option Binary64 :=
  let word := String.ofList (text.map Char.toLower)
  if word = "inf" ∨ word = "infinity" then some (.infinite negative)
  else if word = "nan" then some .nan
  else none

end Decimal

/-- Reads a binary64 number: an optional sign, then a literal or a word. -/
def Binary64.read? (text : List Char) : Option Binary64 :=
  let (negative, body) := Decimal.splitSign text
  match Decimal.readUnsigned body with
  | some d => some (d.toBinary64 negative)
  | none => Decimal.readWord negative body

/-- Reads a natural number of at most `limit`, with an optional plus sign. -/
def readNat? (limit : Nat) (text : List Char) : Option Nat :=
  let body := match text with
    | '+' :: rest => rest
    | _ => text
  (Decimal.readDigits body).filter (· ≤ limit)

def readInt? (least greatest : Int) (text : List Char) : Option Int :=
  let (negative, body) := Decimal.splitSign text
  let value := (Decimal.readDigits body).map fun n => if negative then -(n : Int) else n
  value.filter fun n => least ≤ n ∧ n ≤ greatest

def maxWord : Nat := 18446744073709551615

def minSigned : Int := -9223372036854775808

def maxSigned : Int := 9223372036854775807

end HeapLatency
