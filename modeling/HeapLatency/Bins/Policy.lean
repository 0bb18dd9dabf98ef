import HeapLatency.Bins.Spec
import HeapLatency.Number.Decimal

/-!
# Bins from samples

How the bins of an axis follow from the samples that it shows. Two policies go by means rather
than by the largest sample, so that a few large ones do not press all others into one bin. Their
edges are the multiples of a step below the end of the range, which is itself no edge. The
others span the samples, evenly or evenly on a logarithmic scale.
-/

namespace HeapLatency

namespace Binary64

/-- The sum of samples in their order. The sum of none is negative zero, which changes no
number that is added to it. -/
def sum (samples : List Binary64) : Binary64 := samples.foldl (· + ·) (.zero true)

def mean? (samples : List Binary64) : Option Binary64 :=
  if samples.isEmpty then none else some (sum samples / .ofNat samples.length)

/-- The least multiple of `base` that is not below `value`. -/
def roundUp (value base : Binary64) : Binary64 := (value / base).ceil * base

end Binary64

namespace BinSpec

def refuse {α : Type} (fault : RangeFault) : Except BinError α :=
  .error (.invalidRange fault)

/-- A range of two divisions keeps one bin. -/
def checkDivisions (divisions : Nat) : Except BinError Unit :=
  if divisions < 2 then refuse (.tooFewDivisions divisions) else .ok ()

def checkUpper (upper : Binary64) : Except BinError Unit :=
  if upper.isFinite && decide (0 < upper) then .ok () else refuse (.upperBound upper)

def checkBase (base : Binary64) : Except BinError Unit :=
  if base.isFinite && decide (0 < base) then .ok () else refuse (.roundingBase base)

def multiples (count : Nat) (step : Binary64) : List Binary64 :=
  (List.range count).map fun i => .ofNat i * step

def meanScaled (samples : List Binary64) (divisions : Nat) : Except BinError BinSpec := do
  checkDivisions divisions
  match Binary64.mean? samples with
  | none => refuse .emptySeries
  | some mean =>
    let upper := mean * 3
    checkUpper upper
    let step := upper / .ofNat divisions
    ofEdges (multiples divisions step) step false

/-- The greatest double mean of series, at least zero. The first empty series is refused;
`position` is the position of the first series. -/
def doubleMean (position : Nat) (greatest : Binary64) :
    List (List Binary64) → Except BinError Binary64
  | [] => .ok greatest
  | samples :: rest =>
    match Binary64.mean? samples with
    | none => refuse (.emptySeriesAt position)
    | some mean => doubleMean (position + 1) (greatest.max (mean * 2)) rest

/-- The same edges for several series, from zero to the greatest double mean. Range and step are
rounded up to multiples of a base. -/
def sharedRange (series : List (List Binary64)) (divisions : Nat) (base : Binary64) :
    Except BinError BinSpec := do
  checkDivisions divisions
  checkBase base
  if series.isEmpty then
    refuse .noSeries
  let upper ← doubleMean 0 0 series
  let range := upper.roundUp base
  checkUpper range
  let step := (range / .ofNat divisions).roundUp base
  ofEdges (multiples ((range / step).ceil.toNatUpTo maxWord) step) step false

/-- Equal bins from the least sample to the greatest of all series. A single value is widened
by half a unit on either side. -/
def dataSpan (series : List (List Binary64)) (bins : Nat) : Except BinError BinSpec :=
  if bins = 0 then refuse .noBins
  else
    match series.flatten with
    | [] => refuse .noSamples
    | sample :: samples =>
      let least := samples.foldl Binary64.min sample
      let greatest := samples.foldl Binary64.max sample
      if !(least.isFinite && greatest.isFinite) then refuse (.nonFiniteSpan least greatest)
      else
        let low := if least.same greatest then least - .half else least
        let high := if least.same greatest then greatest + .half else greatest
        let step := (high - low) / .ofNat bins
        ofEdges ((List.range bins).map (fun i => low + .ofNat i * step) ++ [high]) step false

/-- As many bins between the same outer edges, equal on a logarithmic scale. -/
def toLogarithmic (scale : LogScale) (spec : BinSpec) : Except BinError BinSpec :=
  if 0 < spec.first then
    let low := scale.log10 spec.first
    let step := (scale.log10 spec.last - low) / .ofNat spec.binCount
    let inner := (List.range (spec.binCount - 1)).map fun i =>
      scale.pow10 (low + .ofNat (i + 1) * step)
    ofEdges (spec.first :: inner ++ [spec.last]) step true
  else refuse (.firstEdge spec.first)

def logSpan (scale : LogScale) (series : List (List Binary64)) (bins : Nat) :
    Except BinError BinSpec :=
  (dataSpan series bins).bind (toLogarithmic scale)

end BinSpec

end HeapLatency
