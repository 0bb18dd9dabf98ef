import HeapLatency.Proofs.Bins.Edges

/-!
# Bins that span samples

The outer edges are the least and the greatest of the samples that are numbers. Everything else
about the edges follows from these two being finite: a step that is not finite would make NaN of
the first edge, and edges that ascend between finite ends are finite.
-/

namespace HeapLatency.BinSpec

/-! ## Outer edges -/

theorem first_cons (edge : Binary64) (edges : List Binary64) (step : Binary64)
    (logarithmic : Bool) : first ⟨edge :: edges, step, logarithmic⟩ = edge := rfl

theorem last_concat (edges : List Binary64) (edge step : Binary64) (logarithmic : Bool) :
    last ⟨edges ++ [edge], step, logarithmic⟩ = edge := by
  simp [last, BinSpec.edge, binCount]

theorem finite_of_ends {first last : Binary64} {edges : List Binary64}
    (h : (first :: edges ++ [last]).IsChain (· < ·)) (hfirst : first.isFinite = true)
    (hlast : last.isFinite = true) : ∀ edge ∈ first :: edges ++ [last], edge.isFinite = true := by
  rw [List.isChain_iff_pairwise, List.cons_append, List.pairwise_cons, List.pairwise_append] at h
  obtain ⟨habove, -, -, hbelow⟩ := h
  intro edge hedge
  rw [List.cons_append, List.mem_cons, List.mem_append, List.mem_singleton] at hedge
  rcases hedge with rfl | hinner | rfl
  · exact hfirst
  · exact Binary64.isFinite_of_between hfirst (habove edge (List.mem_append_left _ hinner))
      (hbelow edge hinner last (List.mem_singleton_self last)) hlast
  · exact hlast

/-! ## Spans -/

/-- `least` and `greatest` are numbers among the samples, and no other number lies beyond them. -/
structure Extremes (samples : List Binary64) (least greatest : Binary64) : Prop where
  least_mem : least ∈ samples
  greatest_mem : greatest ∈ samples
  least_number : least.isNaN = false
  greatest_number : greatest.isNaN = false
  between : ∀ sample ∈ samples, sample.isNaN = false → least ≤ sample ∧ sample ≤ greatest

/-- The outer edges are the extremes of the samples, half a unit further out where these have one
place. Numbers are compared by their places, so either zero will do. -/
def Spans (samples : List Binary64) (spec : BinSpec) : Prop :=
  ∃ least greatest, Extremes samples least greatest ∧
    if least.same greatest then
      spec.first.same (least - .half) = true ∧ spec.last.same (greatest + .half) = true
    else spec.first.same least = true ∧ spec.last.same greatest = true

theorem extremes_of_finite {sample least greatest : Binary64} {samples : List Binary64}
    (hleast : least = samples.foldl Binary64.min sample)
    (hgreatest : greatest = samples.foldl Binary64.max sample)
    (hlow : least.isFinite = true) (hhigh : greatest.isFinite = true) :
    Extremes (sample :: samples) least greatest := by
  obtain ⟨hminMem, hmin⟩ := Binary64.picks_min.foldl sample samples
  obtain ⟨hmaxMem, hmax⟩ := Binary64.picks_max.foldl sample samples
  subst hleast hgreatest
  exact ⟨hminMem, hmaxMem, Binary64.isNaN_of_isFinite hlow, Binary64.isNaN_of_isFinite hhigh,
    fun other hother hnumber => ⟨hmin other hother hnumber, hmax other hother hnumber⟩⟩

/-- Something stands after the first edge of a span, so the first edge is a number. -/
theorem finite_step_of_span {low high step : Binary64} {bins : Nat} (hbins : 0 < bins)
    (h : ((List.range bins).map (fun i => low + .ofNat i * step) ++ [high]).IsChain (· < ·)) :
    step.isFinite = true := by
  obtain ⟨bins, rfl⟩ := Nat.exists_eq_succ_of_ne_zero hbins.ne'
  rw [List.range_succ_eq_map, List.map_cons, List.isChain_iff_pairwise, List.cons_append,
    List.pairwise_cons] at h
  have hnumber : (low + .ofNat 0 * step).isNaN = false :=
    (Binary64.isNaN_of_lt (h.1 high (List.mem_append_right _ List.mem_cons_self))).1
  exact Binary64.isFinite_of_zero_mul (Binary64.isNaN_of_add hnumber)

theorem ends_of_span {low high step : Binary64} {bins : Nat} (hbins : 0 < bins)
    (hstep : step = (high - low) / .ofNat bins)
    (h : ((List.range bins).map (fun i => low + .ofNat i * step) ++ [high]).IsChain (· < ·)) :
    ∃ lowest inner, (List.range bins).map (fun i => low + .ofNat i * step) = lowest :: inner ∧
      lowest.isFinite = true ∧ lowest.same low = true ∧ high.isFinite = true := by
  have hfinite := finite_step_of_span hbins h
  obtain ⟨bins, rfl⟩ := Nat.exists_eq_succ_of_ne_zero hbins.ne'
  rw [List.range_succ_eq_map, List.map_cons]
  refine ⟨_, _, rfl, ?_⟩
  rw [hstep] at hfinite
  obtain ⟨hhigh, hlow⟩ := Binary64.isFinite_of_sub (Binary64.isFinite_of_div hfinite)
  rw [← hstep] at hfinite
  obtain ⟨hfirst, hsame⟩ := Binary64.add_zero_mul hlow hfinite
  exact ⟨hfirst, hsame, hhigh⟩

theorem edges_of_dataSpan {series : List (List Binary64)} {bins : Nat} {spec : BinSpec}
    (h : dataSpan series bins = .ok spec) :
    (∀ edge ∈ spec.edges, edge.isFinite = true) ∧ spec.edges.length = bins + 1 ∧
      spec.Spans series.flatten := by
  obtain ⟨hbins, sample, samples, least, greatest, low, high, step, hsamples, hleast, hgreatest,
    hleastFinite, hgreatestFinite, hlow, hhigh, hstep, hedges⟩ := dataSpan_eq_ok_iff.1 h
  obtain ⟨-, hascending, rfl⟩ := ofEdges_eq_ok_iff.1 hedges
  obtain ⟨lowest, inner, hinner, hfirst, hsame, hlast⟩ := ends_of_span hbins hstep hascending
  have hextremes := extremes_of_finite hleast hgreatest hleastFinite hgreatestFinite
  refine ⟨?_, ?_, least, greatest, by rwa [hsamples], ?_⟩
  · rw [hinner] at hascending ⊢
    exact finite_of_ends hascending hfirst hlast
  · rw [List.length_append, List.length_map, List.length_range, List.length_singleton]
  · rw [hinner, last_concat, List.cons_append, first_cons]
    have hhighSame := Binary64.same_self (Binary64.isNaN_of_isFinite hlast)
    by_cases hone : least.same greatest = true
    · rw [if_pos hone] at hlow hhigh
      rw [if_pos hone]
      subst hlow hhigh
      exact ⟨hsame, hhighSame⟩
    · rw [if_neg hone] at hlow hhigh
      rw [if_neg hone]
      subst hlow hhigh
      exact ⟨hsame, hhighSame⟩

/-! ## Logarithmic bins -/

theorem edges_of_toLogarithmic {scale : LogScale} {spec result : BinSpec} (hsound : spec.Sound)
    (h : toLogarithmic scale spec = .ok result) :
    result.edges.length = spec.edges.length ∧ result.first = spec.first ∧
      result.last = spec.last := by
  obtain ⟨-, low, step, -, -, hedges⟩ := toLogarithmic_eq_ok_iff.1 h
  obtain ⟨-, -, rfl⟩ := ofEdges_eq_ok_iff.1 hedges
  have htwo := hsound.two_le
  refine ⟨?_, ?_, last_concat _ _ _ _⟩
  · rw [List.length_append, List.length_cons, List.length_map, List.length_range,
      List.length_singleton, binCount]
    omega
  · rw [List.cons_append, first_cons]

theorem mem_edge {spec : BinSpec} {position : Nat} (h : position < spec.edges.length) :
    spec.edge position ∈ spec.edges := by
  rw [edge, List.getElem?_eq_getElem h]
  exact List.getElem_mem h

theorem finite_of_toLogarithmic {scale : LogScale} {spec result : BinSpec} (hsound : spec.Sound)
    (hfinite : ∀ edge ∈ spec.edges, edge.isFinite = true)
    (h : toLogarithmic scale spec = .ok result) :
    ∀ edge ∈ result.edges, edge.isFinite = true := by
  obtain ⟨-, low, step, -, -, hedges⟩ := toLogarithmic_eq_ok_iff.1 h
  obtain ⟨-, hascending, rfl⟩ := ofEdges_eq_ok_iff.1 hedges
  have htwo := hsound.two_le
  exact finite_of_ends hascending (hfinite _ (mem_edge (by omega)))
    (hfinite _ (mem_edge (Nat.sub_lt (by omega) Nat.one_pos)))

theorem edges_of_logSpan {scale : LogScale} {series : List (List Binary64)} {bins : Nat}
    {spec : BinSpec} (h : logSpan scale series bins = .ok spec) :
    (∀ edge ∈ spec.edges, edge.isFinite = true) ∧ spec.edges.length = bins + 1 ∧
      spec.Spans series.flatten := by
  obtain ⟨linear, hlinear, hresult⟩ := logSpan_eq_ok_iff.1 h
  obtain ⟨hfinite, hlength, hspans⟩ := edges_of_dataSpan hlinear
  have hsound := sound_of_dataSpan hlinear
  obtain ⟨hsame, hfirst, hlast⟩ := edges_of_toLogarithmic hsound hresult
  refine ⟨finite_of_toLogarithmic hsound hfinite hresult, hsame.trans hlength, ?_⟩
  rwa [Spans, hfirst, hlast]

end HeapLatency.BinSpec
