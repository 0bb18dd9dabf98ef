import HeapLatency.Chart.Basic
import HeapLatency.Config.Basic
import HeapLatency.Proofs.Results
import Mathlib.Tactic.SplitIfs

/-!
# Valid configurations

What the checks of a configuration say about its numbers: the cutoffs are finite, and of the
numbers for the bins either all are in range or one is rejected, on which charts of one kind
depend.
-/

namespace HeapLatency

namespace Config

theorem requireAtLeast_eq_ok_iff {key : String} {least found : Nat} {u : Unit} :
    requireAtLeast key least found = .ok u ↔ least ≤ found := by
  rw [requireAtLeast]
  split_ifs with hfew
  · exact iff_of_false (fun h => by cases h) (Nat.not_le.2 hfew)
  · exact iff_of_true rfl (Nat.not_lt.1 hfew)

theorem requirePositive_eq_ok_iff {key : String} {value : Binary64} {u : Unit} :
    requirePositive key value = .ok u ↔ isPositive value = true := by
  rw [requirePositive]
  split_ifs with hpositive
  · exact iff_of_true rfl hpositive
  · exact iff_of_false (fun h => by cases h) hpositive

end Config

namespace Binning

variable {binning : Binning}

theorem validate_eq_ok_iff {u : Unit} :
    binning.validate = .ok u ↔
      2 ≤ binning.heatMapBins ∧ 2 ≤ binning.combinedBins ∧ 1 ≤ binning.logBins ∧
        Config.isPositive binning.roundingBase = true := by
  simp only [validate, bind_eq_ok, Config.requireAtLeast_eq_ok_iff,
    Config.requirePositive_eq_ok_iff, exists_and_left, exists_const]

/-- A number that is out of range, given by the kind of chart that goes by it and the fault of its
bins. -/
inductive Rejected (binning : Binning) : ChartKind → RangeFault → Prop
  | heatMapBins (h : binning.heatMapBins < 2) :
    Rejected binning .latencyVsSize (.tooFewDivisions binning.heatMapBins)
  | combinedBins (h : binning.combinedBins < 2) :
    Rejected binning .combined (.tooFewDivisions binning.combinedBins)
  /-- The base is looked at after the divisions. -/
  | roundingBase (htwo : 2 ≤ binning.combinedBins)
    (h : Config.isPositive binning.roundingBase = false) :
    Rejected binning .combined (.roundingBase binning.roundingBase)
  | logBins (h : binning.logBins < 1) : Rejected binning .logComparison .noBins

theorem exists_rejected_iff :
    (∃ kind fault, binning.Rejected kind fault) ↔ binning.validate ≠ .ok () := by
  rw [ne_eq, validate_eq_ok_iff]
  constructor
  · rintro ⟨kind, fault, hrejected⟩ ⟨hheatMap, hcombined, hlog, hbase⟩
    cases hrejected with
    | heatMapBins h => omega
    | combinedBins h => omega
    | roundingBase htwo h =>
      rw [hbase] at h
      cases h
    | logBins h => omega
  · intro hinvalid
    by_cases hheatMap : binning.heatMapBins < 2
    · exact ⟨_, _, .heatMapBins hheatMap⟩
    · by_cases hcombined : binning.combinedBins < 2
      · exact ⟨_, _, .combinedBins hcombined⟩
      · by_cases hlog : binning.logBins < 1
        · exact ⟨_, _, .logBins hlog⟩
        · refine ⟨_, _, .roundingBase (Nat.not_lt.1 hcombined) (Bool.eq_false_iff.2 fun h => ?_)⟩
          exact hinvalid
            ⟨Nat.not_lt.1 hheatMap, Nat.not_lt.1 hcombined, Nat.not_lt.1 hlog, h⟩

end Binning

end HeapLatency
