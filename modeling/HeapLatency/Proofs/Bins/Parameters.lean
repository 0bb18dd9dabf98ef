import HeapLatency.Config.Basic
import HeapLatency.Proofs.Bins.NonFinite

/-!
# Parameters of bins

The policies check the numbers that they are given beside the samples, and so does a configuration
that holds these numbers. Both draw the same line: a policy never finds fault with a number of a
valid configuration, and a number that is not valid makes its policy fail, whatever the samples.
-/

namespace HeapLatency

namespace RangeFault

/-- Faults of a number that a policy is given, and not of the samples. -/
def ofParameter : RangeFault → Bool
  | tooFewDivisions _ | roundingBase _ | noBins => true
  | _ => false

end RangeFault

namespace BinSpec

/-! ## Outcomes without such a fault -/

/-- A computation that does not fail for a parameter. -/
def SparesParameters {α : Type} (outcome : Except BinError α) : Prop :=
  ∀ fault, outcome = .error (.invalidRange fault) → fault.ofParameter = false

section

variable {α β : Type} {samples : List Binary64} {series : List (List Binary64)}
  {divisions bins : Nat} {base : Binary64}

theorem sparesParameters_ok (a : α) : SparesParameters (.ok a) := by
  intro fault h
  cases h

theorem sparesParameters_refuse {fault : RangeFault} (h : fault.ofParameter = false) :
    SparesParameters (refuse fault : Except BinError α) := by
  intro other heq
  rw [refuse, Except.error.injEq, BinError.invalidRange.injEq] at heq
  rwa [← heq]

theorem SparesParameters.bind {first : Except BinError α} {second : α → Except BinError β}
    (hfirst : SparesParameters first) (hsecond : ∀ a, SparesParameters (second a)) :
    SparesParameters (first >>= second) := by
  intro fault h
  rcases bind_eq_error.1 h with h | ⟨a, -, h⟩
  · exact hfirst fault h
  · exact hsecond a fault h

theorem sparesParameters_ofEdges (edges : List Binary64) (step : Binary64) (logarithmic : Bool) :
    SparesParameters (ofEdges edges step logarithmic) := by
  rw [ofEdges]
  split_ifs
  · exact sparesParameters_refuse rfl
  · cases descent? edges with
    | none => exact sparesParameters_ok _
    | some pair => exact sparesParameters_refuse rfl

theorem sparesParameters_checkUpper (upper : Binary64) : SparesParameters (checkUpper upper) := by
  rw [checkUpper]
  split_ifs
  · exact sparesParameters_ok _
  · exact sparesParameters_refuse rfl

theorem sparesParameters_doubleMean (position : Nat) (greatest : Binary64)
    (series : List (List Binary64)) : SparesParameters (doubleMean position greatest series) := by
  induction series generalizing position greatest with
  | nil => exact sparesParameters_ok _
  | cons samples series ih =>
    rw [doubleMean]
    cases Binary64.mean? samples with
    | none => exact sparesParameters_refuse rfl
    | some mean => exact ih _ _

theorem sparesParameters_toLogarithmic (scale : LogScale) (spec : BinSpec) :
    SparesParameters (toLogarithmic scale spec) := by
  rw [toLogarithmic]
  split_ifs
  · exact sparesParameters_ofEdges _ _ _
  · exact sparesParameters_refuse rfl

/-! ## Policies -/

/-- The base of a shared range is checked as a configuration checks it. -/
theorem checkBase_eq (base : Binary64) :
    checkBase base =
      if Config.isPositive base = true then .ok () else refuse (.roundingBase base) := rfl

theorem sparesParameters_meanScaled (htwo : 2 ≤ divisions) :
    SparesParameters (meanScaled samples divisions) := by
  rw [meanScaled, checkDivisions_eq_ok_iff.2 htwo]
  refine (sparesParameters_ok ()).bind fun _ => ?_
  cases Binary64.mean? samples with
  | none => exact sparesParameters_refuse rfl
  | some mean =>
    exact (sparesParameters_checkUpper _).bind fun _ => sparesParameters_ofEdges _ _ _

theorem sparesParameters_sharedRange (htwo : 2 ≤ divisions)
    (hbase : Config.isPositive base = true) :
    SparesParameters (sharedRange series divisions base) := by
  rw [sharedRange, checkDivisions_eq_ok_iff.2 htwo, checkBase_eq, if_pos hbase]
  refine (sparesParameters_ok ()).bind fun _ => (sparesParameters_ok ()).bind fun _ => ?_
  cases series with
  | nil =>
    have hnone : SparesParameters (refuse .noSeries : Except BinError BinSpec) :=
      sparesParameters_refuse rfl
    exact hnone
  | cons samples series =>
    exact (sparesParameters_doubleMean _ _ _).bind fun _ =>
      (sparesParameters_checkUpper _).bind fun _ => sparesParameters_ofEdges _ _ _

theorem sparesParameters_dataSpan (hbins : 0 < bins) :
    SparesParameters (dataSpan series bins) := by
  by_cases hnone : series.flatten = []
  · rw [dataSpan_of_flatten_eq_nil hbins.ne' hnone]
    exact sparesParameters_refuse rfl
  · rw [dataSpan_eq hbins.ne' hnone, spanBetween]
    split
    · exact sparesParameters_refuse rfl
    · exact sparesParameters_ofEdges _ _ _

theorem sparesParameters_logSpan (scale : LogScale) (hbins : 0 < bins) :
    SparesParameters (logSpan scale series bins) :=
  (sparesParameters_dataSpan hbins).bind (sparesParameters_toLogarithmic scale)

/-! ## Numbers out of range -/

theorem refuse_bind (fault : RangeFault) (second : α → Except BinError β) :
    refuse fault >>= second = refuse fault := rfl

theorem meanScaled_of_few (samples : List Binary64) (h : divisions < 2) :
    meanScaled samples divisions = refuse (.tooFewDivisions divisions) := by
  rw [meanScaled, checkDivisions, if_pos h]
  rfl

theorem sharedRange_of_few (series : List (List Binary64)) (base : Binary64) (h : divisions < 2) :
    sharedRange series divisions base = refuse (.tooFewDivisions divisions) := by
  rw [sharedRange, checkDivisions, if_pos h]
  rfl

theorem sharedRange_of_base (series : List (List Binary64)) (htwo : 2 ≤ divisions)
    (h : Config.isPositive base = false) :
    sharedRange series divisions base = refuse (.roundingBase base) := by
  rw [sharedRange, (checkDivisions_eq_ok_iff (u := ())).2 htwo, checkBase_eq,
    if_neg (Bool.eq_false_iff.1 h)]
  rfl

theorem logSpan_zero (scale : LogScale) (series : List (List Binary64)) :
    logSpan scale series 0 = refuse .noBins :=
  logSpan_of_error (dataSpan_zero series)

end

end BinSpec
end HeapLatency
