import HeapLatency.Proofs.Bins.Placement
import HeapLatency.Proofs.Bins.Densities

/-!
# Samples within the edges

Bins that span samples leave none of them out: each lies between the first edge and the last, so
clipping moves none, and a sample is counted in a bin exactly when it lies between the edges of
that bin.
-/

namespace HeapLatency

namespace Binary64

variable {x y : Binary64}

/-! ## Adding on one side -/

theorem exists_place (negative : Bool) (num : Nat) {den : Nat} (hden : 0 < den) :
    ∃ place : Nat, (ofExact negative num den).rank = some (signed negative place) ∧
      ∀ m, Held m → (num ≤ m * den → place ≤ m) ∧ (m * den ≤ num → m ≤ place) := by
  by_cases hlt : roundMagnitude num den < overflow
  · rw [ofExact_of_lt hlt]
    exact ⟨_, rfl, fun m held =>
      ⟨roundMagnitude_le hden held.aligned, le_roundMagnitude hden held.aligned⟩⟩
  · rw [ofExact_of_le (Nat.not_lt.1 hlt)]
    refine ⟨overflow, rfl, fun m held => ⟨fun hle => ?_, fun _ => Nat.le_of_lt held.bounded⟩⟩
    exact absurd (Nat.lt_of_le_of_lt (roundMagnitude_le hden held.aligned hle) held.bounded) hlt

/-- A rounded sum stays on its side of every number of the format. -/
theorem exists_place_add (s : Bool) (a : Nat) (t : Bool) (b : Nat) :
    ∃ place : Int, (addFinite s a t b).rank = some place ∧ ∀ negative m, Held m →
      (signed s a + signed t b ≤ signed negative m → place ≤ signed negative m) ∧
      (signed negative m ≤ signed s a + signed t b → signed negative m ≤ place) := by
  rw [addFinite]
  generalize signed s a + signed t b = sum
  by_cases hzero : sum = 0
  · obtain ⟨held, heq⟩ := ofExact_zero (s && t) Nat.one_pos
    have hrank : (finite (s && t) 0 held).rank = some 0 := by cases s && t <;> rfl
    rw [if_pos hzero, zero, heq, hzero]
    exact ⟨0, hrank, fun _ _ _ => ⟨id, id⟩⟩
  · obtain ⟨place, hplace, hside⟩ := exists_place (sum < 0) sum.natAbs Nat.one_pos
    rw [if_neg hzero]
    refine ⟨_, hplace, fun negative m held => ?_⟩
    obtain ⟨hle, hge⟩ := hside m held
    rw [Nat.mul_one] at hle hge
    by_cases hneg : sum < 0
    · rw [decide_eq_true hneg]
      cases negative <;> simp only [signed, if_true, Bool.false_eq_true, if_false] <;> omega
    · rw [decide_eq_false hneg]
      cases negative <;> simp only [signed, if_true, Bool.false_eq_true, if_false] <;> omega

theorem add_le_self (hx : x.isNaN = false) (hy : y.isFinite = true) (h : y ≤ 0) : x + y ≤ x := by
  cases y with
  | infinite negative => cases hy
  | nan => cases hy
  | finite t b hb =>
    cases x with
    | nan => cases hx
    | infinite s => exact le_refl_of_number rfl
    | finite s a ha =>
      obtain ⟨place, hplace, hside⟩ := exists_place_add s a t b
      obtain ⟨c, d, hc, hd, hle⟩ := le_iff.1 h
      rw [rank, Option.some.injEq] at hc
      rw [rank_zero, Option.some.injEq] at hd
      exact le_iff.2 ⟨place, _, hplace, rfl, (hside s a ha).1 (by omega)⟩

theorem le_add_self (hx : x.isNaN = false) (hy : y.isFinite = true) (h : 0 ≤ y) : x ≤ x + y := by
  cases y with
  | infinite negative => cases hy
  | nan => cases hy
  | finite t b hb =>
    cases x with
    | nan => cases hx
    | infinite s => exact le_refl_of_number rfl
    | finite s a ha =>
      obtain ⟨place, hplace, hside⟩ := exists_place_add s a t b
      obtain ⟨c, d, hc, hd, hle⟩ := le_iff.1 h
      rw [rank_zero, Option.some.injEq] at hc
      rw [rank, Option.some.injEq] at hd
      exact le_iff.2 ⟨_, place, rfl, hplace, (hside s a ha).2 (by omega)⟩

theorem le_of_same (h : x.same y = true) : x ≤ y ∧ y ≤ x := by
  rwa [same, Bool.and_eq_true, decide_eq_true_iff, decide_eq_true_iff] at h

end Binary64

namespace BinSpec

variable {spec : BinSpec} {samples : List Binary64} {value : Binary64}

/-! ## Samples of a span -/

theorem Spans.between (h : spec.Spans samples) (hmem : value ∈ samples)
    (hnumber : value.isNaN = false) : spec.first ≤ value ∧ value ≤ spec.last := by
  obtain ⟨least, greatest, hextremes, hends⟩ := h
  obtain ⟨hleast, hgreatest⟩ := hextremes.between value hmem hnumber
  by_cases hone : least.same greatest = true
  · rw [if_pos hone] at hends
    have hdown : least - .half ≤ least :=
      Binary64.add_le_self hextremes.least_number (by decide +kernel) (by decide +kernel)
    have hup : greatest ≤ greatest + .half :=
      Binary64.le_add_self hextremes.greatest_number (by decide +kernel) (by decide +kernel)
    exact ⟨Binary64.le_trans (Binary64.le_of_same hends.1).1 (Binary64.le_trans hdown hleast),
      Binary64.le_trans hgreatest (Binary64.le_trans hup (Binary64.le_of_same hends.2).2)⟩
  · rw [if_neg hone] at hends
    exact ⟨Binary64.le_trans (Binary64.le_of_same hends.1).1 hleast,
      Binary64.le_trans hgreatest (Binary64.le_of_same hends.2).2⟩

/-! ## Samples of a bin -/

/-- A bin holds its lower edge and what is below its upper edge, and the last bin holds its upper
edge as well. -/
def Holds (spec : BinSpec) (bin : Nat) (value : Binary64) : Prop :=
  spec.edge bin ≤ value ∧
    (value < spec.edge (bin + 1) ∨ bin + 1 = spec.binCount ∧ value ≤ spec.last)

instance (spec : BinSpec) (bin : Nat) (value : Binary64) : Decidable (spec.Holds bin value) :=
  inferInstanceAs (Decidable (_ ∧ _))

theorem Sound.holds_binIndex (h : spec.Sound) (hfirst : spec.first ≤ value)
    (hlast : value ≤ spec.last) : spec.Holds (spec.binIndex value) value := by
  have hpos := h.binCount_pos
  by_cases hlt : value < spec.last
  · obtain ⟨hlower, hupper⟩ := h.edge_binIndex hfirst hlt
    exact ⟨hlower, .inl hupper⟩
  · have htop : spec.last ≤ value :=
      Binary64.le_of_not_lt (Binary64.isNaN_of_le hlast).1 (Binary64.isNaN_of_le hlast).2 hlt
    rw [h.binIndex_of_last_le htop]
    refine ⟨?_, .inr ⟨Nat.sub_add_cancel hpos, hlast⟩⟩
    exact h.edge_le (Nat.sub_le _ _) htop

theorem Sound.holds_unique (h : spec.Sound) {bin other : Nat} (hbin : spec.Holds bin value)
    (hother : spec.Holds other value) (hcount : other < spec.binCount) : other ≤ bin := by
  by_contra hlater
  rcases hbin.2 with hbelow | ⟨htop, -⟩
  · exact Binary64.not_le_of_lt hbelow (h.edge_le (Nat.not_le.1 hlater) hother.1)
  · omega

theorem Sound.binIndex_eq_iff (h : spec.Sound) (hfirst : spec.first ≤ value)
    (hlast : value ≤ spec.last) {bin : Nat} (hbin : bin < spec.binCount) :
    spec.binIndex value = bin ↔ spec.Holds bin value := by
  have hholds := h.holds_binIndex hfirst hlast
  constructor
  · rintro rfl
    exact hholds
  · intro hother
    exact Nat.le_antisymm
      (h.holds_unique hother hholds (binIndex_lt h.binCount_pos value))
      (h.holds_unique hholds hother hbin)

/-- What it means that bins have room for a sample: clipping does not move it, and its bin is one
that holds it. -/
structure Within (spec : BinSpec) (value : Binary64) : Prop where
  first_le : spec.first ≤ value
  le_last : value ≤ spec.last
  clip_eq : spec.clip value = value
  binIndex_lt : spec.binIndex value < spec.binCount
  holds : spec.Holds (spec.binIndex value) value

theorem Sound.within (h : spec.Sound) (hfirst : spec.first ≤ value) (hlast : value ≤ spec.last) :
    spec.Within value where
  first_le := hfirst
  le_last := hlast
  clip_eq := Binary64.clamp_of_between (Binary64.not_lt_of_le hfirst) (Binary64.not_lt_of_le hlast)
  binIndex_lt := BinSpec.binIndex_lt h.binCount_pos value
  holds := h.holds_binIndex hfirst hlast

theorem counts_of_within (h : spec.Sound)
    (hwithin : ∀ sample ∈ samples, spec.first ≤ sample ∧ sample ≤ spec.last) :
    (Histogram.ofSeries spec samples).counts =
      (List.range spec.binCount).map fun bin =>
        samples.countP fun sample => spec.Holds bin sample := by
  rw [Histogram.counts_ofSeries, tally]
  apply List.map_congr_left
  intro bin hbin
  apply List.countP_congr
  intro sample hmem
  obtain ⟨hfirst, hlast⟩ := hwithin sample hmem
  rw [decide_eq_true_iff, decide_eq_true_iff,
    h.binIndex_eq_iff hfirst hlast (List.mem_range.1 hbin)]

end BinSpec

end HeapLatency
