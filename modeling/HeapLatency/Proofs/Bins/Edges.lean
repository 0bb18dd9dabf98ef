import HeapLatency.Chart.Build
import HeapLatency.Proofs.Bins.Sound
import HeapLatency.Proofs.Number.Arithmetic

/-!
# Edges of bins

The edges that every policy gives are finite and ascend strictly. Edges that are multiples of a
step begin at zero and stay within the range that the step divides; edges that span samples begin
at the least of them and end at the greatest.
-/

namespace HeapLatency.BinSpec

/-! ## Multiples of a step -/

@[simp] theorem length_multiples (count : Nat) (step : Binary64) :
    (multiples count step).length = count := by
  simp [multiples]

theorem multiples_lt {count : Nat} {step : Binary64} (h : (multiples count step).IsChain (· < ·))
    {i : Nat} (hi : i + 1 < count) : Binary64.ofNat i * step < Binary64.ofNat (i + 1) * step := by
  have hlt := List.isChain_iff_getElem.1 h i (by rwa [length_multiples])
  simpa [multiples] using hlt

theorem step_of_ascending {count : Nat} {step : Binary64} (htwo : 2 ≤ count)
    (h : (multiples count step).IsChain (· < ·)) :
    ∃ units held, step = .finite false units held ∧ 0 < units := by
  have hlt := multiples_lt h (Nat.lt_of_succ_le htwo)
  have hfinite := Binary64.isFinite_of_zero_mul (Binary64.isNaN_of_lt hlt).1
  cases step with
  | infinite negative => cases hfinite
  | nan => cases hfinite
  | finite negative units held =>
    obtain ⟨hzero, heq⟩ := Binary64.ofExact_zero negative Nat.one_pos
    rw [Binary64.ofNat_mul (Nat.zero_le _), Binary64.ofNat_mul (by decide), Nat.zero_mul,
      Nat.zero_add, Nat.one_mul, Binary64.ofExact_of_held held, heq] at hlt
    obtain ⟨a, b, ha, hb, hab⟩ := Binary64.lt_iff.1 hlt
    rw [Binary64.rank, Option.some.injEq] at ha hb
    cases negative with
    | false =>
      refine ⟨units, held, rfl, ?_⟩
      simp only [Binary64.signed, Bool.false_eq_true, if_false] at ha hb
      omega
    | true =>
      simp only [Binary64.signed, if_true] at ha hb
      omega

/-- Past `2 ^ 53` two neighbouring multiples are equal. -/
theorem count_le_of_ascending {count : Nat} {step : Binary64}
    (h : (multiples count step).IsChain (· < ·)) : count ≤ 1 <<< 53 + 1 := by
  by_contra hmany
  have hlt := multiples_lt h (i := 1 <<< 53) (by omega)
  rw [Binary64.ofNat_eq_ofNat_succ] at hlt
  obtain ⟨a, b, ha, hb, hab⟩ := Binary64.lt_iff.1 hlt
  rw [ha, Option.some.injEq] at hb
  omega

theorem multiples_le {count units m : Nat} {held : Binary64.Held units} (hm : Binary64.Held m)
    (hcount : count ≤ 1 <<< 53 + 1) (hlast : (count - 1) * units ≤ m) :
    ∀ edge ∈ multiples count (.finite false units held),
      ∃ below held, edge = .finite false below held ∧ below ≤ m := by
  intro edge hedge
  obtain ⟨i, hi, rfl⟩ := List.mem_map.1 hedge
  rw [List.mem_range] at hi
  rw [Binary64.ofNat_mul (by omega)]
  apply Binary64.ofExact_le false hm Nat.one_pos
  calc i * units ≤ (count - 1) * units := Nat.mul_le_mul_right units (by omega)
    _ ≤ m := hlast
    _ = m * 1 := (Nat.mul_one m).symm

theorem first_multiples {count units : Nat} {held : Binary64.Held units} (hcount : 0 < count)
    (logarithmic : Bool) (step : Binary64) :
    first ⟨multiples count (.finite false units held), step, logarithmic⟩ = 0 := by
  have hzero : (multiples count (.finite false units held))[0]? =
      some (Binary64.ofNat 0 * .finite false units held) := by
    simp [multiples, hcount]
  rw [first, edge, hzero, Option.getD_some, Binary64.ofNat_mul (Nat.zero_le _)]
  show _ = Binary64.ofNat 0
  rw [Binary64.ofNat, Nat.zero_mul, Nat.zero_mul]

/-! ## Ranges by means -/

/-- However the step is rounded, the steps before the last end at a finite magnitude. -/
theorem exists_bound_of_division {range divisions step : Nat} {hrange : Binary64.Held range}
    {hstep : Binary64.Held step} (hpos : 0 < divisions) (hfew : divisions ≤ 1 <<< 53 + 1)
    (h : .finite false range hrange / Binary64.ofNat divisions = .finite false step hstep) :
    ∃ m, Binary64.Held m ∧ (divisions - 1) * step ≤ m := by
  -- what is divided by is the number of divisions, or `2 ^ 53` where one more is not held
  obtain ⟨parts, hparts, hmost, hrounded, hcases⟩ : ∃ parts, 0 < parts ∧ parts ≤ 1 <<< 53 ∧
      step = Binary64.roundMagnitude range parts ∧
      (parts = divisions ∨ parts = 1 <<< 53 ∧ divisions = 1 <<< 53 + 1) := by
    by_cases hheld : divisions ≤ 1 <<< 53
    · rw [Binary64.div_ofNat hpos hheld] at h
      exact ⟨divisions, hpos, hheld, Binary64.units_of_ofExact h, Or.inl rfl⟩
    · have hone : divisions = 1 <<< 53 + 1 := by omega
      rw [hone, ← Binary64.ofNat_eq_ofNat_succ, Binary64.div_ofNat (by decide) (Nat.le_refl _)] at h
      exact ⟨1 <<< 53, by decide, Nat.le_refl _, Binary64.units_of_ofExact h, Or.inr ⟨rfl, hone⟩⟩
  by_cases hsmall : range ≤ (1 <<< 52) * parts
  · refine ⟨(1 <<< 53) <<< 52, Binary64.held_shiftLeft (Nat.le_refl _) (by decide), ?_⟩
    have hshort : step ≤ 1 <<< 52 := by
      rw [hrounded]
      exact Binary64.roundMagnitude_le hparts
        (Binary64.held_shiftLeft (k := 1) (s := 52) (by decide) (by decide)).aligned hsmall
    calc (divisions - 1) * step ≤ (1 <<< 53) * (1 <<< 52) := Nat.mul_le_mul (by omega) hshort
      _ = (1 <<< 53) <<< 52 := by decide
  · have hlarge : (1 <<< 52) * parts ≤ range := by omega
    refine ⟨range, hrange, ?_⟩
    rcases hcases with rfl | ⟨rfl, rfl⟩
    · rw [hrounded]
      exact Binary64.pred_mul_roundMagnitude_le hparts hmost hlarge
    · rw [hrounded, Nat.add_sub_cancel,
        Binary64.roundMagnitude_mul_shiftLeft hrange.aligned
          (Nat.le_trans (by decide) hlarge)]

theorem finite_of_meanScaled {samples : List Binary64} {divisions : Nat} {spec : BinSpec}
    (h : meanScaled samples divisions = .ok spec) : ∀ edge ∈ spec.edges, edge.isFinite = true := by
  obtain ⟨htwo, mean, -, hfinite, hpos, hedges⟩ := meanScaled_eq_ok_iff.1 h
  obtain ⟨-, hascending, rfl⟩ := ofEdges_eq_ok_iff.1 hedges
  obtain ⟨range, hrange, hupper, -⟩ := Binary64.exists_units hfinite hpos
  obtain ⟨step, hstep, hdivided, -⟩ := step_of_ascending htwo hascending
  have hcount := count_le_of_ascending hascending
  intro edge hedge
  rw [hdivided] at hedge
  rw [hupper] at hdivided
  obtain ⟨m, hm, hlast⟩ := exists_bound_of_division (by omega) hcount hdivided
  obtain ⟨below, held, rfl, -⟩ := multiples_le hm hcount hlast edge hedge
  rfl

theorem edges_of_meanScaled {samples : List Binary64} {divisions : Nat} {spec : BinSpec}
    (h : meanScaled samples divisions = .ok spec) :
    spec.edges.length = divisions ∧ spec.first = 0 := by
  obtain ⟨htwo, mean, -, -, -, hedges⟩ := meanScaled_eq_ok_iff.1 h
  obtain ⟨-, hascending, rfl⟩ := ofEdges_eq_ok_iff.1 hedges
  obtain ⟨step, hstep, hdivided, -⟩ := step_of_ascending htwo hascending
  rw [hdivided]
  exact ⟨length_multiples _ _, first_multiples (by omega) _ _⟩

/-- Shared bins in units of the format: range and step are rounded up to multiples of the base, and
there are as many edges as it takes steps to reach the range. -/
structure Shared (divisions : Nat) (upper : Binary64) (base range step count : Nat) : Prop where
  two_le_divisions : 2 ≤ divisions
  base_held : Binary64.Held base
  range_held : Binary64.Held range
  step_held : Binary64.Held step
  base_pos : 0 < base
  range_pos : 0 < range
  step_pos : 0 < step
  range_eq : upper.roundUp (.finite false base base_held) = .finite false range range_held
  step_eq : (Binary64.finite false range range_held / .ofNat divisions).roundUp
    (.finite false base base_held) = .finite false step step_held
  count_eq : (Binary64.finite false range range_held / .finite false step step_held).ceil.toNatUpTo
    maxWord = count
  two_le_count : 2 ≤ count
  count_le : count ≤ 1 <<< 53 + 1

theorem exists_shared {series : List (List Binary64)} {divisions : Nat} {base : Binary64}
    {spec : BinSpec} (h : sharedRange series divisions base = .ok spec) :
    ∃ upper b range step count, ∃ shared : Shared divisions upper b range step count,
      doubleMean 0 0 series = .ok upper ∧ base = .finite false b shared.base_held ∧
      spec = ⟨multiples count (.finite false step shared.step_held),
        .finite false step shared.step_held, false⟩ := by
  obtain ⟨hdivisions, hbaseFinite, hbasePos, -, upper, range, step, hupper, hrange, hfinite, hpos,
    hstep, hedges⟩ := sharedRange_eq_ok_iff.1 h
  obtain ⟨htwo, hascending, rfl⟩ := ofEdges_eq_ok_iff.1 hedges
  rw [length_multiples] at htwo
  obtain ⟨b, hb, rfl, hbpos⟩ := Binary64.exists_units hbaseFinite hbasePos
  obtain ⟨r, hr, rfl, hrpos⟩ := Binary64.exists_units hfinite hpos
  obtain ⟨s, hs, rfl, hspos⟩ := step_of_ascending htwo hascending
  exact ⟨upper, b, r, s, _, ⟨hdivisions, hb, hr, hs, hbpos, hrpos, hspos, hrange.symm, hstep.symm,
    rfl, htwo, count_le_of_ascending hascending⟩, hupper, rfl, rfl⟩

/-- The multiples of the step stop short of the range, since their number is the range in steps,
rounded up. -/
theorem Shared.last_lt {divisions base range step count : Nat} {upper : Binary64}
    (h : Shared divisions upper base range step count) : (count - 1) * step < range := by
  by_contra hpast
  have htwo := h.two_le_count
  have hfew := h.count_le
  have hle : range * Binary64.unitsPerOne ≤ (count - 1) * Binary64.unitsPerOne * step :=
    calc range * Binary64.unitsPerOne ≤ (count - 1) * step * Binary64.unitsPerOne :=
          Nat.mul_le_mul_right _ (by omega)
      _ = (count - 1) * Binary64.unitsPerOne * step := by ring
  have hcount := Binary64.toNatUpTo_ceil_le maxWord (by omega) h.step_pos hle
  have heq := h.count_eq
  rw [Binary64.div_finite h.step_pos] at heq
  omega

theorem Shared.edge_le {divisions base range step count : Nat} {upper : Binary64}
    (h : Shared divisions upper base range step count) :
    ∀ edge ∈ multiples count (.finite false step h.step_held),
      ∃ below held, edge = .finite false below held ∧ below ≤ range :=
  multiples_le h.range_held h.count_le (Nat.le_of_lt h.last_lt)

theorem edges_of_sharedRange {series : List (List Binary64)} {divisions : Nat} {base : Binary64}
    {spec : BinSpec} (h : sharedRange series divisions base = .ok spec) :
    (∀ edge ∈ spec.edges, edge.isFinite = true) ∧ spec.first = 0 := by
  obtain ⟨upper, b, range, step, count, shared, -, -, rfl⟩ := exists_shared h
  have htwo := shared.two_le_count
  refine ⟨fun edge hedge => ?_, first_multiples (by omega) _ _⟩
  obtain ⟨below, held, rfl, -⟩ := shared.edge_le edge hedge
  rfl

end HeapLatency.BinSpec
