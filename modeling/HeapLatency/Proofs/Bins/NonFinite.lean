import HeapLatency.Proofs.Bins.Sound
import HeapLatency.Proofs.Number.Alike

/-!
# Samples that are not finite

Bins that span samples go by the least and the greatest of them. An infinite sample is always one
of these, so it is refused wherever it stands. NaN gives way to any number when extremes are
picked: it is refused where no sample is a number, and beside numbers it passes unnoticed.
-/

namespace HeapLatency

namespace Binary64

variable {pick : Binary64 → Binary64 → Binary64} {sample : Binary64} {samples : List Binary64}

/-- NaN has no part in what is picked of two samples. -/
structure PassesNaN (pick : Binary64 → Binary64 → Binary64) : Prop where
  left : ∀ x, pick nan x = x
  right : ∀ x, pick x nan = x

theorem passesNaN_min : PassesNaN min where
  left _ := rfl
  right x := by cases x <;> rfl

theorem passesNaN_max : PassesNaN max where
  left _ := rfl
  right x := by cases x <;> rfl

/-- The samples that are numbers. -/
def numbers (samples : List Binary64) : List Binary64 :=
  samples.filter fun sample => !sample.isNaN

theorem mem_numbers : sample ∈ numbers samples ↔ sample ∈ samples ∧ sample.isNaN = false := by
  rw [numbers, List.mem_filter, Bool.not_eq_true']

theorem flatten_map_numbers (series : List (List Binary64)) :
    (series.map numbers).flatten = numbers series.flatten :=
  List.filter_flatten.symm

/-- Whatever was picked before, a fold goes on as if the samples were numbers only. -/
theorem PassesNaN.foldl_numbers (h : PassesNaN pick) (best : Binary64) (samples : List Binary64) :
    (numbers samples).foldl pick best = samples.foldl pick best := by
  induction samples generalizing best with
  | nil => rfl
  | cons sample samples ih =>
    rw [List.foldl_cons]
    cases sample with
    | nan =>
      rw [h.right]
      exact ih best
    | finite negative units held => exact ih _
    | infinite negative => exact ih _

theorem Picks.isFinite_foldl_of_isNaN {beyond : Binary64 → Binary64 → Prop} (h : Picks beyond pick)
    (hnone : ∀ sample ∈ samples, sample.isNaN = true) :
    (samples.foldl pick nan).isFinite = false := by
  have hmem := (h.foldl nan samples).1
  have hNaN : (samples.foldl pick nan).isNaN = true := by
    rcases List.mem_cons.1 hmem with heq | hmem
    · rw [heq]
      rfl
    · exact hnone _ hmem
  cases hpick : samples.foldl pick nan with
  | nan => rfl
  | finite negative units held =>
    rw [hpick] at hNaN
    cases hNaN
  | infinite negative => rfl

theorem not_infinite_le_of_isFinite {x : Binary64} (h : x.isFinite = true) :
    ¬infinite false ≤ x ∧ ¬x ≤ infinite true := by
  obtain ⟨place, hplace, hlow, hhigh⟩ := rank_of_isFinite h
  constructor
  · intro hle
    obtain ⟨a, b, ha, hb, hab⟩ := le_iff.1 hle
    rw [hplace, Option.some.injEq] at hb
    have : a = (overflow : Int) := (Option.some.inj ha).symm
    omega
  · intro hle
    obtain ⟨a, b, ha, hb, hab⟩ := le_iff.1 hle
    rw [hplace, Option.some.injEq] at ha
    have : b = -(overflow : Int) := (Option.some.inj hb).symm
    omega

theorem extremes_of_infinite {negative : Bool} (h : infinite negative ∈ samples) :
    ¬((samples.foldl min nan).isFinite = true ∧ (samples.foldl max nan).isFinite = true) := by
  rintro ⟨hleast, hgreatest⟩
  have hmem := List.mem_cons_of_mem nan h
  cases negative with
  | false =>
    exact (not_infinite_le_of_isFinite hgreatest).1
      ((picks_max.foldl nan samples).2 _ hmem rfl)
  | true =>
    exact (not_infinite_le_of_isFinite hleast).2
      ((picks_min.foldl nan samples).2 _ hmem rfl)

end Binary64

namespace BinSpec

open Binary64

variable {series : List (List Binary64)} {bins : Nat}

/-- Equal bins between the extremes of samples. -/
def spanBetween (bins : Nat) (least greatest : Binary64) : Except BinError BinSpec :=
  if !(least.isFinite && greatest.isFinite) then refuse (.nonFiniteSpan least greatest)
  else
    let low := if least.same greatest then least - .half else least
    let high := if least.same greatest then greatest + .half else greatest
    let step := (high - low) / .ofNat bins
    ofEdges ((List.range bins).map (fun i => low + .ofNat i * step) ++ [high]) step false

theorem dataSpan_eq (hbins : bins ≠ 0) (hsome : series.flatten ≠ []) :
    dataSpan series bins =
      spanBetween bins (series.flatten.foldl min nan) (series.flatten.foldl max nan) := by
  rw [dataSpan, if_neg hbins]
  cases h : series.flatten with
  | nil => exact absurd h hsome
  | cons sample samples => rfl

theorem dataSpan_of_flatten_eq_nil (hbins : bins ≠ 0) (h : series.flatten = []) :
    dataSpan series bins = refuse .noSamples := by
  rw [dataSpan, if_neg hbins, h]

theorem dataSpan_zero (series : List (List Binary64)) : dataSpan series 0 = refuse .noBins := rfl

theorem logSpan_of_error {scale : LogScale} {error : BinError}
    (h : dataSpan series bins = .error error) : logSpan scale series bins = .error error := by
  rw [logSpan, h]
  rfl

theorem dataSpan_numbers (h : ∃ sample ∈ series.flatten, sample.isNaN = false) :
    dataSpan (series.map numbers) bins = dataSpan series bins := by
  obtain ⟨sample, hmem, hnumber⟩ := h
  by_cases hbins : bins = 0
  · rw [hbins, dataSpan_zero, dataSpan_zero]
  · have hsome : (series.map numbers).flatten ≠ [] := by
      rw [flatten_map_numbers]
      exact List.ne_nil_of_mem (mem_numbers.2 ⟨hmem, hnumber⟩)
    rw [dataSpan_eq hbins hsome, dataSpan_eq hbins (List.ne_nil_of_mem hmem), flatten_map_numbers,
      passesNaN_min.foldl_numbers, passesNaN_max.foldl_numbers]

/-- An infinite sample is refused, and so is NaN where there is no finite sample. -/
theorem dataSpan_of_nonFinite (hbins : bins ≠ 0) {sample : Binary64}
    (hmem : sample ∈ series.flatten) (hsample : sample.isFinite = false)
    (hNaN : sample.isNaN = true → ∀ other ∈ series.flatten, other.isFinite = false) :
    ∃ least greatest,
      dataSpan series bins = .error (.invalidRange (.nonFiniteSpan least greatest)) := by
  have hextremes : ¬((series.flatten.foldl min nan).isFinite = true ∧
      (series.flatten.foldl max nan).isFinite = true) := by
    by_cases hinfinite : ∃ negative, infinite negative ∈ series.flatten
    · obtain ⟨negative, hinfinite⟩ := hinfinite
      exact extremes_of_infinite hinfinite
    · -- then the sample is NaN, and so is every other
      have hnone : ∀ other ∈ series.flatten, other.isNaN = true := by
        intro other hother
        have hfinite : other.isFinite = false := by
          refine hNaN ?_ other hother
          cases sample with
          | nan => rfl
          | finite negative units held => cases hsample
          | infinite negative => exact absurd ⟨negative, hmem⟩ hinfinite
        cases other with
        | nan => rfl
        | finite negative units held => cases hfinite
        | infinite negative => exact absurd ⟨negative, hother⟩ hinfinite
      rw [picks_min.isFinite_foldl_of_isNaN hnone]
      rintro ⟨hfinite, -⟩
      cases hfinite
  refine ⟨series.flatten.foldl min nan, series.flatten.foldl max nan, ?_⟩
  rw [← Bool.and_eq_true, Bool.not_eq_true] at hextremes
  rw [dataSpan_eq hbins (List.ne_nil_of_mem hmem), spanBetween, hextremes, Bool.not_false,
    if_pos rfl]
  rfl

/-- Bins that span samples, on either scale, are refused wherever a sample is infinite, and where a
sample is NaN and none is finite. NaN beside a number is passed over: the bins, or the fault, are
those of the samples that are numbers. -/
theorem spans_of_nonFinite (scale : LogScale) (series : List (List Binary64)) {bins : Nat}
    (hbins : 0 < bins) :
    (∀ sample ∈ series.flatten, sample.isFinite = false →
      (sample.isNaN = true → ∀ other ∈ series.flatten, other.isFinite = false) →
      ∃ least greatest,
        dataSpan series bins = .error (.invalidRange (.nonFiniteSpan least greatest)) ∧
        logSpan scale series bins = .error (.invalidRange (.nonFiniteSpan least greatest))) ∧
    ((∃ sample ∈ series.flatten, sample.isNaN = false) →
      dataSpan series bins = dataSpan (series.map numbers) bins ∧
      logSpan scale series bins = logSpan scale (series.map numbers) bins) := by
  constructor
  · intro sample hmem hsample hNaN
    obtain ⟨least, greatest, hrefused⟩ := dataSpan_of_nonFinite hbins.ne' hmem hsample hNaN
    exact ⟨least, greatest, hrefused, logSpan_of_error hrefused⟩
  · intro hnumber
    have heq : dataSpan (series.map numbers) bins = dataSpan series bins :=
      dataSpan_numbers hnumber
    exact ⟨heq.symm, by rw [logSpan, logSpan, heq]⟩

/-- An infinite sample among finite ones, a single NaN, and NaN beside a number. -/
theorem spans_of_nonFinite_sample :
    (∃ least greatest,
      dataSpan [[3, .infinite true], [7]] 2 =
        .error (.invalidRange (.nonFiniteSpan least greatest)) ∧
      logSpan ⟨id, id⟩ [[3, .infinite true], [7]] 2 =
        .error (.invalidRange (.nonFiniteSpan least greatest))) ∧
    (∃ least greatest,
      dataSpan [[], [.nan]] 2 = .error (.invalidRange (.nonFiniteSpan least greatest)) ∧
      logSpan ⟨id, id⟩ [[], [.nan]] 2 = .error (.invalidRange (.nonFiniteSpan least greatest))) ∧
    dataSpan [[.nan, 7], [9]] 2 = dataSpan [[7], [9]] 2 ∧
    logSpan ⟨id, id⟩ [[.nan, 7], [9]] 2 = logSpan ⟨id, id⟩ [[7], [9]] 2 := by
  obtain ⟨hinfinite, -⟩ := spans_of_nonFinite ⟨id, id⟩ [[3, .infinite true], [7]] Nat.two_pos
  obtain ⟨hnone, -⟩ := spans_of_nonFinite ⟨id, id⟩ [[], [.nan]] Nat.two_pos
  obtain ⟨-, hpassed⟩ := spans_of_nonFinite ⟨id, id⟩ [[.nan, 7], [9]] Nat.two_pos
  have hnumbers : ([[.nan, 7], [9]] : List (List Binary64)).map numbers = [[7], [9]] := by
    decide +kernel
  rw [hnumbers] at hpassed
  refine ⟨hinfinite (.infinite true) (by decide +kernel) rfl fun h => (by cases h),
    hnone .nan (by decide +kernel) rfl fun _ => ?_, hpassed ⟨7, by decide +kernel⟩⟩
  decide +kernel

/-- The minimum and the maximum of 7 and NaN are 7, so the span of both is that of the 7. -/
theorem nan_unnoticed :
    ∃ sample ∈ ([[7, .nan]] : List (List Binary64)).flatten, sample.isFinite = false ∧
      (∃ spec, dataSpan [[7, .nan]] 2 = .ok spec) ∧
      ∃ spec, logSpan ⟨id, id⟩ [[7, .nan]] 2 = .ok spec :=
  ⟨.nan, by decide +kernel, rfl, exists_of_isOk (by decide +kernel),
    exists_of_isOk (by decide +kernel)⟩

end BinSpec

end HeapLatency
