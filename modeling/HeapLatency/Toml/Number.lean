import HeapLatency.Number.Decimal
import HeapLatency.Toml.Text

/-!
# TOML numbers

Whole numbers of 64 bits in four bases, real numbers, and dates and times. Underscores may stand
between digits.
-/

namespace HeapLatency.Toml

/-! ## Dates and times -/

def readBounded (width least greatest : Nat) : TomlReader Nat := fun text =>
  let digits := text.take width
  let value := Decimal.ofDigits digits
  if digits.length = width ∧ digits.all Char.isDigit ∧ least ≤ value ∧ value ≤ greatest then
    some (value, text.drop width)
  else none

def expectChar (c : Char) : List Char → Option (List Char)
  | [] => none
  | d :: rest => if d = c then some rest else none

def daysIn (year month : Nat) : Nat :=
  if month = 2 then
    if year % 4 = 0 ∧ (year % 100 ≠ 0 ∨ year % 400 = 0) then 29 else 28
  else if month = 4 ∨ month = 6 ∨ month = 9 ∨ month = 11 then 30
  else 31

def afterDate? (text : List Char) : Option (List Char) := do
  let (year, rest) ← readBounded 4 0 9999 text
  let (month, rest) ← readBounded 2 1 12 (← expectChar '-' rest)
  let (_, rest) ← readBounded 2 1 (daysIn year month) (← expectChar '-' rest)
  return rest

def afterMinutes? (text : List Char) : Option (List Char) := do
  let (_, rest) ← readBounded 2 0 23 text
  let (_, rest) ← readBounded 2 0 59 (← expectChar ':' rest)
  return rest

def afterTime? (text : List Char) : Option (List Char) := do
  let rest ← afterMinutes? text
  let (_, rest) ← readBounded 2 0 60 (← expectChar ':' rest)
  match rest with
  | '.' :: fraction =>
    if fraction.head?.any Char.isDigit then some (fraction.dropWhile Char.isDigit) else some rest
  | _ => some rest

/-- What follows the distance of a time from the universal one, where there is any. -/
def afterOffset (text : List Char) : List Char :=
  match text with
  | c :: rest =>
    if c = 'Z' ∨ c = 'z' then rest
    else if c = '+' ∨ c = '-' then (afterMinutes? rest).getD text
    else text
  | [] => text

def afterMoment? (text : List Char) : Option (List Char) :=
  match afterDate? text with
  | some rest =>
    match rest with
    | c :: time =>
      if c = 'T' ∨ c = 't' ∨ c = ' ' then
        match afterTime? time with
        | some rest => some (afterOffset rest)
        | none => some rest
      else some rest
    | [] => some rest
  | none => afterTime? text

/-! ## Numbers -/

def takeDigits (isDigit : Char → Bool) : List Char → List Char × List Char
  | '_' :: c :: rest =>
    if isDigit c then
      let (digits, rest) := takeDigits isDigit rest
      (c :: digits, rest)
    else ([], '_' :: c :: rest)
  | c :: rest =>
    if isDigit c then
      let (digits, rest) := takeDigits isDigit rest
      (c :: digits, rest)
    else ([], c :: rest)
  | [] => ([], [])

/-- Digits of which the first is no underscore. -/
def readDigits (isDigit : Char → Bool) : TomlReader (List Char)
  | [] => none
  | c :: rest => if isDigit c then some (takeDigits isDigit (c :: rest)) else none

def takeSign : List Char → List Char × List Char
  | '+' :: rest => (['+'], rest)
  | '-' :: rest => (['-'], rest)
  | text => ([], text)

/-- A decimal whole number as text, with its sign. Only zero itself begins with a zero. -/
def readWhole : TomlReader (List Char) := fun text => do
  let (sign, body) := takeSign text
  match body with
  | '0' :: rest => return (sign ++ ['0'], rest)
  | _ =>
    let (digits, rest) ← readDigits Char.isDigit body
    return (sign ++ digits, rest)

def readExponent : TomlReader (List Char)
  | c :: rest =>
    if c = 'e' ∨ c = 'E' then do
      let (sign, body) := takeSign rest
      let (digits, rest) ← readDigits Char.isDigit body
      return ('e' :: sign ++ digits, rest)
    else none
  | [] => none

def readFraction : TomlReader (List Char)
  | '.' :: rest => do
    let (digits, rest) ← readDigits Char.isDigit rest
    match readExponent rest with
    | some (exponent, rest) => return ('.' :: digits ++ exponent, rest)
    | none => return ('.' :: digits, rest)
  | _ => none

def readWordNumber : TomlReader Binary64 := fun text =>
  let (sign, body) := takeSign text
  match body with
  | 'i' :: 'n' :: 'f' :: rest => some (.infinite (sign = ['-']), rest)
  | 'n' :: 'a' :: 'n' :: rest => some (.nan, rest)
  | _ => none

/-- A real number. One past the largest positive number is refused. -/
def readReal : TomlReader Binary64 := fun text =>
  match readWhole text with
  | none => readWordNumber text
  | some (whole, rest) => do
    let (fraction, rest) ← (readFraction rest).or (readExponent rest)
    let value ← Binary64.read? (whole ++ fraction)
    if value = .infinite false then none else return (value, rest)

def readInteger : TomlReader Int
  | '0' :: 'x' :: rest => inBase 16 isHexDigit rest
  | '0' :: 'o' :: rest => inBase 8 (fun c => '0' ≤ c && c ≤ '7') rest
  | '0' :: 'b' :: rest => inBase 2 (fun c => c = '0' || c = '1') rest
  | text => do
    let (whole, rest) ← readWhole text
    let value ← readInt? minSigned maxSigned whole
    return (value, rest)
where
  inBase (base : Nat) (isDigit : Char → Bool) : TomlReader Int := fun text => do
    let (digits, rest) ← readDigits isDigit text
    let value : Int := digits.foldl (fun value c => base * value + hexValue [c]) 0
    if value ≤ maxSigned then return (value, rest) else none

/-- A date, a time or a number: the first of them that the text can be. -/
def readNumber : TomlReader Toml := fun text =>
  match afterMoment? text with
  | some rest => some (.moment, rest)
  | none =>
    match readReal text with
    | some (value, rest) => some (.real value, rest)
    | none => (readInteger text).map fun (value, rest) => (.integer value, rest)

end HeapLatency.Toml
