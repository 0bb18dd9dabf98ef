import HeapLatency.Number.Spelling

/-!
# Bin specifications

The edges of the bins of one axis. Neighbouring edges bound a bin, which holds its lower edge;
the last bin holds its upper edge as well. A sample outside the edges counts at the nearest one.
-/

namespace HeapLatency

/-- Why a range gives no bins. -/
inductive RangeFault where
  | tooFewDivisions (divisions : Nat)
  | emptySeries
  | upperBound (value : Binary64)
  | roundingBase (value : Binary64)
  | noSeries
  | emptySeriesAt (position : Nat)
  | noBins
  | noSamples
  | nonFiniteSpan (low high : Binary64)
  | firstEdge (value : Binary64)
  | tooFewEdges (count : Nat) (step : Binary64)
  | notIncreasing (lower upper : Binary64)
  deriving DecidableEq

namespace RangeFault

def message : RangeFault → String
  | .tooFewDivisions divisions =>
    natText divisions ++ " division(s) leave no bin below the range"
  | .emptySeries => "cannot scale bins to an empty series"
  | .upperBound value => "upper bound " ++ value.plainText ++ " is not positive"
  | .roundingBase value => "rounding base " ++ value.plainText ++ " is not positive"
  | .noSeries => "no series to share a range across"
  | .emptySeriesAt position => "series " ++ natText position ++ " is empty"
  | .noBins => "bin count must be greater than 0"
  | .noSamples => "cannot span bins over empty series"
  | .nonFiniteSpan low high =>
    "non-finite sample span [" ++ low.plainText ++ ", " ++ high.plainText ++ "]"
  | .firstEdge value =>
    "log bins need a strictly positive first edge, got " ++ value.plainText
  | .tooFewEdges count step =>
    natText count ++ " edge(s) with step " ++ step.plainText ++ " do not make a bin"
  | .notIncreasing lower upper =>
    "edges are not strictly increasing (" ++ lower.plainText ++ " then " ++ upper.plainText ++ ")"

end RangeFault

inductive BinError where
  | invalidRange (fault : RangeFault)
  | lengthMismatch (x y : Nat)
  deriving DecidableEq

namespace BinError

def message : BinError → String
  | .invalidRange fault => "Invalid bin range: " ++ fault.message
  | .lengthMismatch x y =>
    "Series are not index-aligned: " ++ natText x ++ " x-samples vs " ++ natText y ++ " y-samples"

end BinError

/-- The bins of an axis. -/
structure BinSpec where
  edges : List Binary64
  /-- Width of a bin, or width of its decimal logarithm. -/
  step : Binary64
  logarithmic : Bool
  deriving DecidableEq

/-- An edge as a label: a whole number without a point, any other with two places. Numbers from
`10 ^ 15` on always have places. -/
def edgeText (edge : Binary64) : String :=
  match edge with
  | .finite negative units _ =>
    if edge.isWhole && units < 1000000000000000 * Binary64.unitsPerOne then
      intText (Binary64.signed negative (units / Binary64.unitsPerOne))
    else edge.fixedText 2
  | _ => edge.fixedText 2

/-- The part of a list from one position up to another, if both are in the list or at its end. -/
def slice? {α : Type} (list : List α) (start stop : Nat) : Option (List α) :=
  if start ≤ stop ∧ stop ≤ list.length then some ((list.take stop).drop start) else none

/-! ## Search by halving

The number of positions at the front of a range where a condition holds, for a condition that
holds up to some position and nowhere after it. Each step halves the range that is left, so the
answer is defined for any condition, and only there means what it says where the condition is of
that kind. -/

/-- Looks for the end of the positions where `holds`, among `size` positions from `base` on. -/
def searchFrom (holds : Nat → Bool) (base size : Nat) : Nat :=
  if 1 < size then
    searchFrom holds (if holds (base + size / 2) then base + size / 2 else base) (size - size / 2)
  else if size = 1 ∧ holds base then base + 1
  else base
termination_by size
decreasing_by omega

theorem searchFrom_le (holds : Nat → Bool) (base size : Nat) :
    searchFrom holds base size ≤ base + size := by
  fun_induction searchFrom holds base size with
  | case1 base size h ih =>
    refine Nat.le_trans ih ?_
    split <;> omega
  | case2 base size h h1 => omega
  | case3 base size h h1 => omega

/-! ## Bins -/

namespace BinSpec

def descent? : List Binary64 → Option (Binary64 × Binary64)
  | lower :: upper :: edges =>
    if lower < upper then descent? (upper :: edges) else some (lower, upper)
  | _ => none

/-- Bins with the given edges: at least two, in strictly ascending order. -/
def ofEdges (edges : List Binary64) (step : Binary64) (logarithmic : Bool) :
    Except BinError BinSpec :=
  if edges.length < 2 then .error (.invalidRange (.tooFewEdges edges.length step))
  else
    match descent? edges with
    | some (lower, upper) => .error (.invalidRange (.notIncreasing lower upper))
    | none => .ok { edges, step, logarithmic }

/-- The edge at a position; NaN past the last. Counting and drawing look edges up by their position
instead, and fail where there is none. -/
def edge (spec : BinSpec) (position : Nat) : Binary64 := spec.edges[position]?.getD .nan

def binCount (spec : BinSpec) : Nat := spec.edges.length - 1

def first (spec : BinSpec) : Binary64 := spec.edge 0

def last (spec : BinSpec) : Binary64 := spec.edge spec.binCount

def width (spec : BinSpec) (bin : Nat) : Binary64 := spec.edge (bin + 1) - spec.edge bin

/-- The width between the edges that a bin has. -/
def width? (spec : BinSpec) (bin : Nat) : Option Binary64 := do
  let upper ← spec.edges[bin + 1]?
  let lower ← spec.edges[bin]?
  return upper - lower

/-- The nearest number between the first and the last edge. -/
def clip (spec : BinSpec) (value : Binary64) : Binary64 := value.clamp spec.first spec.last

/-- The bin of a clipped sample: that of the last edge which is at most the sample. -/
def binOf (spec : BinSpec) (clipped : Binary64) : Nat :=
  let edgesBelow := searchFrom (fun position => spec.edge position ≤ clipped) 0 spec.edges.length
  Nat.min (edgesBelow - 1) (spec.binCount - 1)

def binIndex (spec : BinSpec) (value : Binary64) : Nat := spec.binOf (spec.clip value)

/-- The bin of a sample, clipped at the edges that there are. -/
def binIndex? (spec : BinSpec) (value : Binary64) : Option Nat := do
  let first ← spec.edges[0]?
  let last ← spec.edges[spec.binCount]?
  return spec.binOf (value.clamp first last)

def overflowMark : String := "+"

def markLast : List String → List String
  | [] => []
  | [label] => [label ++ overflowMark]
  | label :: labels => label :: markLast labels

/-- One label for each bin, its upper edge. -/
def labels (spec : BinSpec) : List String := markLast ((spec.edges.drop 1).map edgeText)

/-- The labels, where there is a first edge to leave out. -/
def labels? (spec : BinSpec) : Option (List String) := do
  let upper ← slice? spec.edges 1 spec.edges.length
  return markLast (upper.map edgeText)

end BinSpec

end HeapLatency
