import HeapLatency.Bins.Spec

/-!
# Histograms

Counts of samples by bin. Every sample is clipped into the range of its bins first, so none is
dropped, and the counts add up to the number of samples. A count is looked up by its position, and
so are the edges; there is no histogram if one of them is not there.
-/

namespace HeapLatency

/-- The counts with one more at a position. -/
def countAt? (counts : List Nat) (position : Nat) : Option (List Nat) := do
  let count ← counts[position]?
  return counts.set position (count + 1)

/-- The counts of one series over the bins of an axis. -/
structure Histogram where
  counts : List Nat
  total : Nat
  deriving DecidableEq, Repr

namespace Histogram

def ofSeries? (bins : BinSpec) (samples : List Binary64) : Option Histogram := do
  let counts ←
    samples.foldlM (fun counts sample => do countAt? counts (← bins.binIndex? sample))
      (List.replicate bins.binCount 0)
  return { counts, total := samples.length }

/-- The counts scaled to an area of one over the bins. Without samples every density is zero. -/
def density? (bins : BinSpec) (histogram : Histogram) : Option (List Binary64) :=
  if histogram.total = 0 then some (histogram.counts.map fun _ => 0)
  else
    histogram.counts.zipIdx.mapM fun (count, bin) => do
      let width ← bins.width? bin
      return .ofNat count / (.ofNat histogram.total * width)

def maxCount (histogram : Histogram) : Nat := histogram.counts.foldl Nat.max 0

end Histogram

/-- The counts of two series whose samples at one position belong together. -/
structure JointHistogram where
  counts : List (List Nat)
  total : Nat
  deriving DecidableEq, Repr

namespace JointHistogram

/-- The counts with one more in a row of a column. -/
def countAt? (counts : List (List Nat)) (column row : Nat) : Option (List (List Nat)) := do
  let rows ← counts[column]?
  return counts.set column (← HeapLatency.countAt? rows row)

/-- Counts pairs of samples by their bins. Series of different lengths make no pairs. -/
def ofSeries? (xBins yBins : BinSpec) (x y : List Binary64) :
    Option (Except BinError JointHistogram) :=
  if x.length ≠ y.length then some (.error (.lengthMismatch x.length y.length))
  else do
    let counts ←
      (x.zip y).foldlM
        (fun counts pair => do
          countAt? counts (← xBins.binIndex? pair.1) (← yBins.binIndex? pair.2))
        (List.replicate xBins.binCount (List.replicate yBins.binCount 0))
    return .ok { counts, total := x.length }

def maxCount (histogram : JointHistogram) : Nat := histogram.counts.flatten.foldl Nat.max 0

end JointHistogram

end HeapLatency
