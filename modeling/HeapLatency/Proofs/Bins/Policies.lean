import HeapLatency.Proofs.Bins.Means
import HeapLatency.Proofs.Bins.Spans

/-!
# What every policy keeps

Bins come from the policies alone, and a logarithmic axis from bins that exist already. Whatever
the samples are, such bins have finite edges in strictly ascending order, and where the edges
begin and end depends on the policy only.
-/

namespace HeapLatency.BinSpec

/-- The bins that the policies give. -/
inductive Made (scale : LogScale) : BinSpec → Prop where
  | meanScaled {samples : List Binary64} {divisions : Nat} {spec : BinSpec}
    (h : meanScaled samples divisions = .ok spec) : Made scale spec
  | sharedRange {series : List (List Binary64)} {divisions : Nat} {base : Binary64}
    {spec : BinSpec} (h : sharedRange series divisions base = .ok spec) : Made scale spec
  | dataSpan {series : List (List Binary64)} {bins : Nat} {spec : BinSpec}
    (h : dataSpan series bins = .ok spec) : Made scale spec
  | logSpan {series : List (List Binary64)} {bins : Nat} {spec : BinSpec}
    (h : logSpan scale series bins = .ok spec) : Made scale spec
  | logarithmic {spec result : BinSpec} (made : Made scale spec)
    (h : toLogarithmic scale spec = .ok result) : Made scale result

/-- At least two edges, all finite and in strictly ascending order. -/
structure Proper (spec : BinSpec) : Prop where
  two_le : 2 ≤ spec.edges.length
  finite : ∀ edge ∈ spec.edges, edge.isFinite = true
  increasing : spec.edges.Pairwise (· < ·)

theorem Made.sound {scale : LogScale} {spec : BinSpec} (made : Made scale spec) : spec.Sound := by
  cases made with
  | meanScaled h => exact sound_of_meanScaled h
  | sharedRange h => exact sound_of_sharedRange h
  | dataSpan h => exact sound_of_dataSpan h
  | logSpan h => exact sound_of_logSpan h
  | logarithmic made h => exact sound_of_toLogarithmic h

theorem Made.finite {scale : LogScale} {spec : BinSpec} (made : Made scale spec) :
    ∀ edge ∈ spec.edges, edge.isFinite = true := by
  induction made with
  | meanScaled h => exact finite_of_meanScaled h
  | sharedRange h => exact (edges_of_sharedRange h).1
  | dataSpan h => exact (edges_of_dataSpan h).1
  | logSpan h => exact (edges_of_logSpan h).1
  | logarithmic made h ih => exact finite_of_toLogarithmic made.sound ih h

theorem Made.proper {scale : LogScale} {spec : BinSpec} (made : Made scale spec) :
    spec.Proper where
  two_le := made.sound.two_le
  finite := made.finite
  increasing := List.isChain_iff_pairwise.1 made.sound.ascending

theorem Proper.sound {spec : BinSpec} (h : spec.Proper) : spec.Sound where
  two_le := h.two_le
  ascending := List.isChain_iff_pairwise.2 h.increasing

theorem Sound.edge_lt {spec : BinSpec} (h : spec.Sound) {earlier later : Nat}
    (hlt : earlier < later) (hlater : later < spec.edges.length) :
    spec.edge earlier < spec.edge later := by
  have hpair := List.pairwise_iff_getElem.1 (List.isChain_iff_pairwise.1 h.ascending) earlier later
    (by omega) hlater hlt
  rwa [edge, edge, List.getElem?_eq_getElem hlater,
    List.getElem?_eq_getElem (Nat.lt_trans hlt hlater)]

theorem Sound.length_edges {spec : BinSpec} (h : spec.Sound) :
    spec.edges.length = spec.binCount + 1 := by
  have htwo := h.two_le
  rw [binCount]
  omega

theorem Sound.first_lt_last {spec : BinSpec} (h : spec.Sound) : spec.first < spec.last :=
  h.edge_lt h.binCount_pos (by rw [h.length_edges]; omega)

/-- Bins from a mean have the number of edges asked for and begin at zero, and for whole samples
in not too many divisions they stay below three times the mean. Shared bins begin at zero. Bins
that span samples, on either scale, are as many as asked for, between the least and the greatest
sample. -/
theorem edges_of_policies (scale : LogScale) :
    (∀ spec, Made scale spec → spec.Proper) ∧
    (∀ samples divisions spec, meanScaled samples divisions = .ok spec →
      spec.edges.length = divisions ∧ spec.first = 0) ∧
    (∀ (cycles : List UInt64) (divisions : Nat) (spec : BinSpec), cycles.length < 1 <<< 64 →
      divisions ≤ 1 <<< 32 → meanScaled (samplesOf cycles) divisions = .ok spec →
        ∃ mean, Binary64.mean? (samplesOf cycles) = some mean ∧
          ∀ edge ∈ spec.edges, edge < mean * 3) ∧
    (∀ series divisions base spec, sharedRange series divisions base = .ok spec →
      spec.first = 0) ∧
    ∀ series bins spec,
      dataSpan series bins = .ok spec ∨ logSpan scale series bins = .ok spec →
        spec.edges.length = bins + 1 ∧ spec.Spans series.flatten := by
  refine ⟨fun spec made => made.proper, fun samples divisions spec h => edges_of_meanScaled h,
    fun cycles divisions spec hword hfew h => meanScaled_lt hword hfew h,
    fun series divisions base spec h => (edges_of_sharedRange h).2, ?_⟩
  rintro series bins spec (h | h)
  · exact (edges_of_dataSpan h).2
  · exact (edges_of_logSpan h).2

theorem edges_of_policies_sample :
    ∃ scaled shared spanned logarithmic twice,
      meanScaled (samplesOf [50, 150]) 3 = .ok scaled ∧
      sharedRange [samplesOf [400, 600], samplesOf [1000]] 20 100 = .ok shared ∧
      dataSpan [samplesOf [7], [.nan]] 2 = .ok spanned ∧
      logSpan ⟨id, id⟩ [samplesOf [1000], samplesOf [1]] 3 = .ok logarithmic ∧
      toLogarithmic ⟨id, id⟩ logarithmic = .ok twice ∧
      scaled.Proper ∧ shared.Proper ∧ spanned.Proper ∧ logarithmic.Proper ∧ twice.Proper ∧
      scaled.edges.length = 3 ∧ scaled.first = 0 ∧
      (∃ mean, Binary64.mean? (samplesOf [50, 150]) = some mean ∧
        ∀ edge ∈ scaled.edges, edge < mean * 3) ∧
      shared.first = 0 ∧
      (spanned.edges.length = 3 ∧ spanned.Spans [7, .nan]) ∧
      logarithmic.edges.length = 4 ∧ logarithmic.Spans [1000, 1] := by
  obtain ⟨scaled, hscaled⟩ : ∃ scaled, meanScaled (samplesOf [50, 150]) 3 = .ok scaled :=
    exists_of_isOk (by decide +kernel)
  obtain ⟨shared, hshared⟩ : ∃ shared,
      sharedRange [samplesOf [400, 600], samplesOf [1000]] 20 100 = .ok shared :=
    exists_of_isOk (by decide +kernel)
  obtain ⟨spanned, hspanned⟩ : ∃ spanned, dataSpan [samplesOf [7], [.nan]] 2 = .ok spanned :=
    exists_of_isOk (by decide +kernel)
  obtain ⟨twice, htwice⟩ : ∃ twice,
      (logSpan ⟨id, id⟩ [samplesOf [1000], samplesOf [1]] 3 >>= toLogarithmic ⟨id, id⟩) =
        .ok twice := exists_of_isOk (by decide +kernel)
  obtain ⟨logarithmic, hlogarithmic, htwice⟩ := bind_eq_ok.1 htwice
  obtain ⟨hproper, hmean, hbelow, hzero, hspans⟩ := edges_of_policies ⟨id, id⟩
  obtain ⟨hlength, hfirst⟩ := hmean _ _ _ hscaled
  exact ⟨scaled, shared, spanned, logarithmic, twice, hscaled, hshared, hspanned, hlogarithmic,
    htwice, hproper _ (.meanScaled hscaled), hproper _ (.sharedRange hshared),
    hproper _ (.dataSpan hspanned), hproper _ (.logSpan hlogarithmic),
    hproper _ (.logarithmic (.logSpan hlogarithmic) htwice), hlength, hfirst,
    hbelow _ _ _ (by decide) (by decide) hscaled, hzero _ _ _ _ hshared,
    hspans _ _ _ (Or.inl hspanned), hspans _ _ _ (Or.inr hlogarithmic)⟩

/-! ## Logarithmic bins -/

variable {origin scale : LogScale} {spec other : BinSpec}

/-- Logarithmic bins go by the outer edges and their number, and by nothing between. -/
theorem toLogarithmic_congr (hlength : spec.edges.length = other.edges.length)
    (hfirst : spec.first = other.first) (hlast : spec.last = other.last) :
    toLogarithmic scale spec = toLogarithmic scale other := by
  have hcount : spec.binCount = other.binCount := by rw [binCount, binCount, hlength]
  rw [toLogarithmic, toLogarithmic, hfirst, hlast, hcount]

theorem toLogarithmic_of_nonpos (h : spec.first ≤ 0) :
    toLogarithmic scale spec = .error (.invalidRange (.firstEdge spec.first)) :=
  if_neg (Binary64.not_lt_of_le h)

theorem logarithmic_of_toLogarithmic (h : toLogarithmic scale spec = .ok other) :
    other.logarithmic = true := by
  obtain ⟨-, low, step, -, -, hedges⟩ := toLogarithmic_eq_ok_iff.1 h
  obtain ⟨-, -, rfl⟩ := ofEdges_eq_ok_iff.1 hedges
  rfl

theorem not_lt_of_descent? {edges : List Binary64} {lower upper : Binary64}
    (h : descent? edges = some (lower, upper)) : ¬lower < upper := by
  fun_induction descent? edges with
  | case1 first second edges hascends ih => exact ih h
  | case2 first second edges hdescends =>
    cases h
    exact hdescends
  | case3 edges => cases h

/-- Above zero there are enough edges, so bins can only fail by edges that do not ascend. -/
theorem toLogarithmic_of_pos (h : 0 < spec.first) :
    (∃ result, toLogarithmic scale spec = .ok result) ∨
      ∃ lower upper, ¬lower < upper ∧
        toLogarithmic scale spec = .error (.invalidRange (.notIncreasing lower upper)) := by
  have htwo (inner : List Binary64) : ¬(spec.first :: inner ++ [spec.last]).length < 2 := by
    rw [List.length_append, List.length_cons, List.length_singleton]
    omega
  rw [toLogarithmic, if_pos h]
  dsimp only
  rw [ofEdges, if_neg (htwo _)]
  split
  next lower upper hdescent => exact .inr ⟨lower, upper, not_lt_of_descent? hdescent, rfl⟩
  next => exact .inl ⟨_, rfl⟩

/-- Whatever the logarithm and the power return, logarithmic bins keep the frame that they are made
from. Without a first edge above zero there are none. Otherwise they either fail for edges that do
not ascend, or have as many edges between the same outer ones, ascend, are logarithmic, and are what
they would be made into again. -/
theorem logarithmic_keeps_frame (made : Made origin spec) :
    (spec.first ≤ 0 →
      toLogarithmic scale spec = .error (.invalidRange (.firstEdge spec.first))) ∧
    (0 < spec.first → (∃ result, toLogarithmic scale spec = .ok result) ∨
      ∃ lower upper, ¬lower < upper ∧
        toLogarithmic scale spec = .error (.invalidRange (.notIncreasing lower upper))) ∧
    ∀ result, toLogarithmic scale spec = .ok result →
      result.logarithmic = true ∧ result.edges.length = spec.edges.length ∧
        result.first = spec.first ∧ result.last = spec.last ∧
        result.edges.Pairwise (· < ·) ∧ toLogarithmic scale result = .ok result := by
  refine ⟨toLogarithmic_of_nonpos, toLogarithmic_of_pos, fun result h => ?_⟩
  obtain ⟨hlength, hfirst, hlast⟩ := edges_of_toLogarithmic made.sound h
  exact ⟨logarithmic_of_toLogarithmic h, hlength, hfirst, hlast,
    List.isChain_iff_pairwise.1 (sound_of_toLogarithmic h).ascending,
    (toLogarithmic_congr hlength hfirst hlast).trans h⟩

/-- Bins from zero are refused. A single bin keeps its edges even where logarithms are no numbers;
two bins do not ascend there. -/
theorem logarithmic_keeps_frame_sample :
    let scale : LogScale := ⟨fun _ => .nan, fun _ => .nan⟩
    ∃ scaled single pair result,
      meanScaled (samplesOf [50, 150]) 3 = .ok scaled ∧ scaled.first ≤ 0 ∧
      toLogarithmic scale scaled = .error (.invalidRange (.firstEdge scaled.first)) ∧
      dataSpan [samplesOf [1000, 1]] 2 = .ok pair ∧ 0 < pair.first ∧
      (∃ lower upper, ¬lower < upper ∧
        toLogarithmic scale pair = .error (.invalidRange (.notIncreasing lower upper))) ∧
      dataSpan [samplesOf [1000, 1]] 1 = .ok single ∧ toLogarithmic scale single = .ok result ∧
      result.logarithmic = true ∧ result.edges.length = single.edges.length ∧
      result.first = single.first ∧ result.last = single.last ∧
      result.edges.Pairwise (· < ·) ∧ toLogarithmic scale result = .ok result := by
  intro scale
  obtain ⟨scaled, hscaled, hzero⟩ : ∃ scaled, meanScaled (samplesOf [50, 150]) 3 = .ok scaled ∧
      decide (scaled.first ≤ 0) = true := exists_of_toOption_map (by decide +kernel)
  obtain ⟨pair, hpair, hpos⟩ : ∃ pair, dataSpan [samplesOf [1000, 1]] 2 = .ok pair ∧
      (decide (0 < pair.first), (toLogarithmic scale pair).isOk) = (true, false) :=
    exists_of_toOption_map (by decide +kernel)
  obtain ⟨result, hresult⟩ : ∃ result,
      (dataSpan [samplesOf [1000, 1]] 1 >>= toLogarithmic scale) = .ok result :=
    exists_of_isOk (by decide +kernel)
  obtain ⟨single, hsingle, hresult⟩ := bind_eq_ok.1 hresult
  obtain ⟨hpos, hfails⟩ := Prod.mk.inj hpos
  have hzero := of_decide_eq_true hzero
  have hpos := of_decide_eq_true hpos
  obtain ⟨hrefused, -, -⟩ := logarithmic_keeps_frame (.meanScaled hscaled : Made scale scaled)
  obtain ⟨-, hdescends, -⟩ := logarithmic_keeps_frame (.dataSpan hpair : Made scale pair)
  obtain ⟨-, -, hframe⟩ := logarithmic_keeps_frame (.dataSpan hsingle : Made scale single)
  refine ⟨scaled, single, pair, result, hscaled, hzero, hrefused hzero, hpair, hpos,
    (hdescends hpos).resolve_left ?_, hsingle, hresult, hframe result hresult⟩
  rintro ⟨other, hother⟩
  rw [hother] at hfails
  cases hfails

end HeapLatency.BinSpec
