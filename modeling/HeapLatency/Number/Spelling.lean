import HeapLatency.Number.Shortest

/-!
# Spelling of numbers

Three ways to write a binary64 number. Plain text has the shortest digits and no exponent.
Fixed text has a fixed number of places and rounds the exact value. Data text is a JSON
number: always a point or an exponent, and an exponent only outside a middle range.
-/

namespace HeapLatency

def natText (n : Nat) : String := String.ofList (Nat.toDigits 10 n)

def intText (n : Int) : String := (if n < 0 then "-" else "") ++ natText n.natAbs

/-- Digits with a point after the first `point` of them, zeros filling the gap on either side. -/
def Decimal.positional (d : Decimal) : String :=
  let digits := Nat.toDigits 10 d.digits
  let places := (-d.exponent).toNat
  if 0 ≤ d.exponent then
    String.ofList (digits ++ List.replicate d.exponent.toNat '0')
  else if places < digits.length then
    String.ofList
      (digits.take (digits.length - places) ++ '.' :: digits.drop (digits.length - places))
  else
    String.ofList ('0' :: '.' :: List.replicate (places - digits.length) '0' ++ digits)

/-- One digit, a point if more follow, and a signed power of ten. -/
def Decimal.scientific (d : Decimal) : String :=
  let digits := Nat.toDigits 10 d.digits
  let power := d.exponent + digits.length - 1
  let fraction := digits.drop 1
  String.ofList (digits.take 1) ++
    (if fraction.isEmpty then "" else "." ++ String.ofList fraction) ++
    (if power < 0 then "e-" else "e+") ++ natText power.natAbs

namespace Binary64

private def minus (negative : Bool) : String := if negative then "-" else ""

/-- Shortest digits without an exponent; a whole number has no point. -/
def plainText : Binary64 → String
  | .finite negative units _ =>
    minus negative ++ if units = 0 then "0" else (shortest .upward units).positional
  | .infinite negative => minus negative ++ "inf"
  | .nan => "NaN"

/-- A fixed number of places, the exact value rounded to the nearest, a tie to the even one. -/
def fixedText (places : Nat) : Binary64 → String
  | .finite negative units _ =>
    let scaled := nearestEven (units * Nat.pow 10 places) unitsPerOne
    let fraction := Nat.toDigits 10 (scaled % Nat.pow 10 places)
    minus negative ++ natText (scaled / Nat.pow 10 places) ++ "." ++
      String.ofList (List.replicate (places - fraction.length) '0' ++ fraction)
  | .infinite negative => minus negative ++ "inf"
  | .nan => "NaN"

/-- A JSON number, or nothing for a value that JSON cannot hold. With the point `k` places
after the first digit's left side, the plain form is kept for `-5 < k ≤ 16`. -/
def dataText? : Binary64 → Option String
  | .finite negative units _ =>
    if units = 0 then some (minus negative ++ "0.0")
    else
      let d := shortest .even units
      let point := d.exponent + Decimal.width d.digits
      let body :=
        if -5 < point ∧ point ≤ 16 then
          if 0 ≤ d.exponent then d.positional ++ ".0" else d.positional
        else d.scientific
      some (minus negative ++ body)
  | _ => none

end Binary64

end HeapLatency
