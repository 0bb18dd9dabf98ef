import HeapLatency.Number.Decimal

/-!
# Shortest decimals

The decimal with the fewest digits that reads back as a given binary64 number and, of those,
the nearest to it. A number is read back from every decimal between the midpoints to its
neighbours, the midpoints themselves belonging to the number whose significand is even. If
some decimal with `n` digits lies between the midpoints, then so does one of the two that
enclose the number.
-/

namespace HeapLatency

namespace Binary64

/-- Which of two decimals stands for a number that lies exactly between them. -/
inductive Tie where
  | upward
  | even
  deriving DecidableEq

/-- The decimal position of a magnitude: the least `k` with `units < 10 ^ k` in ones. -/
def decimalPosition (units : Nat) : Int :=
  if unitsPerOne ≤ units then Decimal.width (units / unitsPerOne)
  else (Decimal.width (units * Nat.pow 10 400 / unitsPerOne) : Int) - 400

/-- Four times the distance to the midpoint below. A power of two lies closer to its lower
neighbour than to its upper one, except at the bottom of the format. -/
def gapBelow (units : Nat) : Nat :=
  if units = 1 <<< units.log2 ∧ 1 < spacing units then spacing units else 2 * spacing units

def gapAbove (units : Nat) : Nat := 2 * spacing units

def onGrid? (tie : Tie) (units : Nat) (exponent : Int) : Option Nat :=
  let scale := if 0 ≤ exponent then 1 else Nat.pow 10 (-exponent).toNat
  let den := if 0 ≤ exponent then unitsPerOne * Nat.pow 10 exponent.toNat else unitsPerOne
  let num := units * scale
  let lower := num / den
  let below := num - lower * den
  let above := (lower + 1) * den - num
  let closed := units / spacing units % 2 == 0
  let within (distance gap : Nat) : Bool :=
    if closed then 4 * distance ≤ gap * scale else 4 * distance < gap * scale
  match within below (gapBelow units), within above (gapAbove units) with
  | false, false => none
  | true, false => some lower
  | false, true => some (lower + 1)
  | true, true =>
    if below < above then some lower
    else if above < below then some (lower + 1)
    else if tie = .even ∧ lower % 2 = 0 then some lower
    else some (lower + 1)

/-- The shortest decimal of a positive magnitude. Seventeen digits always suffice. -/
def shortest (tie : Tie) (units : Nat) : Decimal :=
  let position := decimalPosition units
  let candidate? (digits : Nat) : Option Decimal :=
    (onGrid? tie units (position - digits)).map fun n =>
      if n = Nat.pow 10 digits then ⟨1, position⟩ else ⟨n, position - digits⟩
  ((List.range' 1 17).findSome? candidate?).getD ⟨0, 0⟩

end Binary64

end HeapLatency
