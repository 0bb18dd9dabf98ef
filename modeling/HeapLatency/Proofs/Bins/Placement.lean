import HeapLatency.Proofs.Bins.Counting
import HeapLatency.Proofs.Bins.Policies

/-!
# Where a sample falls

The bin of a sample is found by halving the edges. As the edges ascend, those at or below a number
are the front of the list, and the search counts them. So each bin holds its lower edge and not its
upper one, except that the last bin holds everything from its lower edge on.
-/

namespace HeapLatency

theorem le_searchFrom (holds : Nat → Bool) (base size : Nat) :
    base ≤ searchFrom holds base size := by
  fun_induction searchFrom holds base size with
  | case1 base size hlarge ih =>
    refine Nat.le_trans ?_ ih
    split <;> omega
  | case2 base size hlarge hone => exact Nat.le_succ base
  | case3 base size hlarge hnone => exact Nat.le_refl base

/-- Where the positions that satisfy a condition come before all others, the search ends right
behind them. -/
theorem lt_searchFrom_iff {holds : Nat → Bool}
    (hdown : ∀ i j, i ≤ j → holds j = true → holds i = true) (base size position : Nat)
    (hbase : base ≤ position) (hsize : position < base + size) :
    position < searchFrom holds base size ↔ holds position = true := by
  fun_induction searchFrom holds base size with
  | case1 base size hlarge ih =>
    -- the half that is dropped lies below the pivot when it satisfies the condition, and from the
    -- pivot on when it does not
    by_cases hpivot : holds (base + size / 2) = true
    · rw [dif_pos hpivot] at ih
      rw [if_pos hpivot]
      by_cases hfront : base + size / 2 ≤ position
      · exact ih hfront (by omega)
      · refine iff_of_true ?_ (hdown _ _ (by omega) hpivot)
        have hpast := le_searchFrom holds (base + size / 2) (size - size / 2)
        omega
    · rw [dif_neg hpivot] at ih
      rw [if_neg hpivot]
      by_cases hback : position < base + (size - size / 2)
      · exact ih hbase hback
      · refine iff_of_false ?_ fun hholds => hpivot (hdown _ _ (by omega) hholds)
        have hle := searchFrom_le holds base (size - size / 2)
        omega
  | case2 base size hlarge hone =>
    have heq : position = base := by omega
    rw [heq]
    exact iff_of_true (Nat.lt_succ_self base) hone.2
  | case3 base size hlarge hnone =>
    have heq : position = base := by omega
    rw [heq]
    exact iff_of_false (Nat.lt_irrefl base) fun hholds => hnone ⟨by omega, hholds⟩

namespace Binary64

variable {x y lo hi : Binary64}

theorem clamp_of_lt (h : x < lo) : x.clamp lo hi = lo := if_pos h

theorem clamp_of_gt (hlo : ¬x < lo) (hhi : hi < x) : x.clamp lo hi = hi := by
  rw [clamp, if_neg hlo, if_pos hhi]

theorem clamp_of_between (hlo : ¬x < lo) (hhi : ¬hi < x) : x.clamp lo hi = x := by
  rw [clamp, if_neg hlo, if_neg hhi]

theorem clamp_clamp (h : lo < hi) : (x.clamp lo hi).clamp lo hi = x.clamp lo hi := by
  by_cases hlo : x < lo
  · rw [clamp_of_lt hlo, clamp_of_between lt_irrefl (not_lt_of_le (le_of_lt h))]
  · by_cases hhi : hi < x
    · rw [clamp_of_gt hlo hhi, clamp_of_between (not_lt_of_le (le_of_lt h)) lt_irrefl]
    · rw [clamp_of_between hlo hhi, clamp_of_between hlo hhi]

theorem clamp_le_clamp (h : lo < hi) (hxy : x ≤ y) : x.clamp lo hi ≤ y.clamp lo hi := by
  obtain ⟨hx, hy⟩ := isNaN_of_le hxy
  obtain ⟨hlow, hhigh⟩ := isNaN_of_lt h
  by_cases hylo : y < lo
  · rw [clamp_of_lt hylo, clamp_of_lt (lt_of_le_of_lt hxy hylo)]
    exact le_refl_of_number hlow
  · by_cases hxlo : x < lo
    · rw [clamp_of_lt hxlo]
      by_cases hyhi : hi < y
      · rw [clamp_of_gt hylo hyhi]
        exact le_of_lt h
      · rw [clamp_of_between hylo hyhi]
        exact le_of_not_lt hy hlow hylo
    · by_cases hxhi : hi < x
      · rw [clamp_of_gt hxlo hxhi, clamp_of_gt hylo (lt_of_lt_of_le hxhi hxy)]
        exact le_refl_of_number hhigh
      · rw [clamp_of_between hxlo hxhi]
        by_cases hyhi : hi < y
        · rw [clamp_of_gt hylo hyhi]
          exact le_of_not_lt hhigh hx hxhi
        · rw [clamp_of_between hylo hyhi]
          exact hxy

end Binary64

namespace BinSpec

variable {spec : BinSpec} {value : Binary64} {position : Nat}

theorem edge_eq_nan (h : spec.edges.length ≤ position) : spec.edge position = .nan := by
  rw [edge, List.getElem?_eq_none h, Option.getD_none]

theorem Sound.edge_le (h : spec.Sound) {earlier later : Nat} (hle : earlier ≤ later)
    (hvalue : spec.edge later ≤ value) : spec.edge earlier ≤ value := by
  rcases Nat.eq_or_lt_of_le hle with rfl | hlt
  · exact hvalue
  · have hlater : later < spec.edges.length := by
      by_contra hpast
      rw [edge_eq_nan (Nat.not_lt.1 hpast)] at hvalue
      exact absurd (Binary64.isNaN_of_le hvalue).1 (by decide)
    exact Binary64.le_trans (Binary64.le_of_lt (h.edge_lt hlt hlater)) hvalue

/-- The number of edges at or below a number. -/
def edgesUpTo (spec : BinSpec) (value : Binary64) : Nat :=
  searchFrom (fun position => spec.edge position ≤ value) 0 spec.edges.length

theorem binIndex_eq (spec : BinSpec) (value : Binary64) :
    spec.binIndex value = Nat.min (spec.edgesUpTo (spec.clip value) - 1) (spec.binCount - 1) :=
  rfl

theorem edgesUpTo_le (spec : BinSpec) (value : Binary64) :
    spec.edgesUpTo value ≤ spec.edges.length := by
  have hle := searchFrom_le (fun position => spec.edge position ≤ value) 0 spec.edges.length
  rwa [Nat.zero_add] at hle

theorem Sound.lt_edgesUpTo_iff (h : spec.Sound) (hposition : position < spec.edges.length) :
    position < spec.edgesUpTo value ↔ spec.edge position ≤ value := by
  have hdown : ∀ i j, i ≤ j → decide (spec.edge j ≤ value) = true →
      decide (spec.edge i ≤ value) = true := fun i j hij hj =>
    decide_eq_true (h.edge_le hij (of_decide_eq_true hj))
  rw [edgesUpTo, lt_searchFrom_iff hdown 0 _ _ (Nat.zero_le _) (by omega), decide_eq_true_iff]

theorem Sound.clip_clip (h : spec.Sound) (value : Binary64) :
    spec.clip (spec.clip value) = spec.clip value :=
  Binary64.clamp_clamp h.first_lt_last

theorem Sound.binIndex_clip (h : spec.Sound) (value : Binary64) :
    spec.binIndex (spec.clip value) = spec.binIndex value := by
  rw [binIndex_eq, binIndex_eq, h.clip_clip]

theorem Sound.binIndex_of_isNaN (h : spec.Sound) (hvalue : value.isNaN = true) :
    spec.binIndex value = 0 := by
  have hclip : spec.clip value = value := by
    cases value with
    | finite negative units held => cases hvalue
    | infinite negative => cases hvalue
    | nan =>
      exact Binary64.clamp_of_between
        (fun hlt => absurd (Binary64.isNaN_of_lt hlt).1 (by decide))
        (fun hlt => absurd (Binary64.isNaN_of_lt hlt).2 (by decide))
  have hnone : ¬0 < spec.edgesUpTo value := by
    rw [h.lt_edgesUpTo_iff (by rw [h.length_edges]; omega)]
    intro hle
    rw [(Binary64.isNaN_of_le hle).2] at hvalue
    cases hvalue
  rw [binIndex_eq, hclip, Nat.le_zero.1 (Nat.not_lt.1 hnone)]
  exact Nat.zero_min _

theorem Sound.binIndex_of_lt_first (h : spec.Sound) (hvalue : value < spec.first) :
    spec.binIndex value = 0 := by
  have hpos := h.binCount_pos
  have hclip : spec.clip value = spec.first := Binary64.clamp_of_lt hvalue
  have hone : ¬1 < spec.edgesUpTo spec.first := by
    rw [h.lt_edgesUpTo_iff (by rw [h.length_edges]; omega)]
    exact Binary64.not_le_of_lt (h.edge_lt Nat.one_pos (by rw [h.length_edges]; omega))
  rw [binIndex_eq, hclip, Nat.sub_eq_zero_of_le (Nat.not_lt.1 hone)]
  exact Nat.zero_min _

theorem Sound.binIndex_of_last_le (h : spec.Sound) (hvalue : spec.last ≤ value) :
    spec.binIndex value = spec.binCount - 1 := by
  have hlow : ¬value < spec.first := fun hlt =>
    Binary64.not_le_of_lt (Binary64.lt_trans hlt h.first_lt_last) hvalue
  have hclip : spec.last ≤ spec.clip value := by
    by_cases hhigh : spec.last < value
    · rw [clip, Binary64.clamp_of_gt hlow hhigh]
      exact Binary64.le_refl_of_number (Binary64.isNaN_of_le hvalue).1
    · rwa [clip, Binary64.clamp_of_between hlow hhigh]
  have hall : spec.binCount < spec.edgesUpTo (spec.clip value) :=
    (h.lt_edgesUpTo_iff (by rw [h.length_edges]; omega)).2 hclip
  rw [binIndex_eq]
  exact Nat.min_eq_right (by omega)

theorem Sound.edge_binIndex (h : spec.Sound) (hfirst : spec.first ≤ value)
    (hlast : value < spec.last) :
    spec.edge (spec.binIndex value) ≤ value ∧ value < spec.edge (spec.binIndex value + 1) := by
  have hlength := h.length_edges
  have hclip : spec.clip value = value :=
    Binary64.clamp_of_between (Binary64.not_lt_of_le hfirst)
      (Binary64.not_lt_of_le (Binary64.le_of_lt hlast))
  have hsome : 0 < spec.edgesUpTo value := (h.lt_edgesUpTo_iff (by omega)).2 hfirst
  have hnotAll : ¬spec.binCount < spec.edgesUpTo value := by
    rw [h.lt_edgesUpTo_iff (by omega)]
    exact Binary64.not_le_of_lt hlast
  have hindex : spec.binIndex value = spec.edgesUpTo value - 1 := by
    rw [binIndex_eq, hclip]
    exact Nat.min_eq_left (by omega)
  rw [hindex, Nat.sub_add_cancel hsome]
  constructor
  · exact (h.lt_edgesUpTo_iff (by omega)).1 (by omega)
  · have hedge : ¬spec.edge (spec.edgesUpTo value) ≤ value := by
      rw [← h.lt_edgesUpTo_iff (by omega)]
      exact Nat.lt_irrefl _
    have hlt : spec.edge 0 < spec.edge (spec.edgesUpTo value) := h.edge_lt hsome (by omega)
    exact Binary64.lt_of_not_le (Binary64.isNaN_of_lt hlt).2 (Binary64.isNaN_of_le hfirst).2 hedge

theorem Sound.binIndex_le_binIndex (h : spec.Sound) {value greater : Binary64}
    (hle : value ≤ greater) : spec.binIndex value ≤ spec.binIndex greater := by
  have hclip : spec.clip value ≤ spec.clip greater :=
    Binary64.clamp_le_clamp h.first_lt_last hle
  have hedges : spec.edgesUpTo (spec.clip value) ≤ spec.edgesUpTo (spec.clip greater) := by
    by_contra hmore
    have hposition : spec.edgesUpTo (spec.clip greater) < spec.edges.length :=
      Nat.lt_of_lt_of_le (Nat.not_le.1 hmore) (edgesUpTo_le spec _)
    have hvalue := (h.lt_edgesUpTo_iff hposition).1 (Nat.not_le.1 hmore)
    exact Nat.lt_irrefl _
      ((h.lt_edgesUpTo_iff hposition).2 (Binary64.le_trans hvalue hclip))
  rw [binIndex_eq, binIndex_eq]
  have hsub := Nat.sub_le_sub_right hedges 1
  exact Nat.le_min.2 ⟨Nat.le_trans (Nat.min_le_left _ _) hsub, Nat.min_le_right _ _⟩

/-- Bins that a policy gave, or that are the logarithmic form of any others, have a bin for every
sample. It is the first for NaN and for a sample below the first edge, the last for a sample at or
above the last edge, and otherwise the one whose lower edge is at or below the sample and whose
upper edge is above it. A greater sample is never in an earlier bin, and clipping a sample neither
moves it to another bin nor has an effect when done again. -/
theorem binIndex_of_made {scale : LogScale} {spec : BinSpec}
    (made : Made scale spec ∨ ∃ linear, toLogarithmic scale linear = .ok spec) :
    (∀ value, spec.binIndex? value = some (spec.binIndex value) ∧
      spec.binIndex value < spec.binCount) ∧
    (∀ value, value.isNaN = true ∨ value < spec.first → spec.binIndex value = 0) ∧
    (∀ value, spec.last ≤ value → spec.binIndex value = spec.binCount - 1) ∧
    (∀ value, ¬(value.isNaN = true ∨ value < spec.first) → ¬spec.last ≤ value →
      spec.edge (spec.binIndex value) ≤ value ∧ value < spec.edge (spec.binIndex value + 1)) ∧
    (∀ value greater, value ≤ greater → spec.binIndex value ≤ spec.binIndex greater) ∧
    ∀ value, spec.binIndex (spec.clip value) = spec.binIndex value ∧
      spec.clip (spec.clip value) = spec.clip value := by
  have h : spec.Sound := by
    rcases made with hmade | ⟨linear, hresult⟩
    · exact hmade.sound
    · exact sound_of_toLogarithmic hresult
  obtain ⟨hfirst, hlast⟩ := Binary64.isNaN_of_lt h.first_lt_last
  refine ⟨fun value => ⟨binIndex?_eq h.binCount_pos value, binIndex_lt h.binCount_pos value⟩, ?_,
    fun value => h.binIndex_of_last_le, ?_,
    fun value greater => h.binIndex_le_binIndex,
    fun value => ⟨h.binIndex_clip value, h.clip_clip value⟩⟩
  · rintro value (hvalue | hvalue)
    · exact h.binIndex_of_isNaN hvalue
    · exact h.binIndex_of_lt_first hvalue
  · intro value hbelow habove
    rw [not_or, Bool.not_eq_true] at hbelow
    exact h.edge_binIndex (Binary64.le_of_not_lt hbelow.1 hfirst hbelow.2)
      (Binary64.lt_of_not_le hlast hbelow.1 habove)

theorem binIndex_of_made_sample :
    ∃ spec, meanScaled (samplesOf [50, 150]) 3 = .ok spec ∧ spec.binCount = 2 ∧
      spec.binIndex .nan = 0 ∧ spec.binIndex (-1) = 0 ∧ spec.binIndex 200 = 1 ∧
      (spec.edge (spec.binIndex 100) ≤ 100 ∧ (100 : Binary64) < spec.edge (spec.binIndex 100 + 1)) ∧
      spec.binIndex 99 ≤ spec.binIndex 100 ∧
      spec.binIndex (spec.clip 700) = spec.binIndex 700 ∧
      spec.clip (spec.clip 700) = spec.clip 700 := by
  obtain ⟨spec, hspec, hends⟩ : ∃ spec, meanScaled (samplesOf [50, 150]) 3 = .ok spec ∧
      (spec.binCount, spec.first, spec.last) = (2, 0, 200) :=
    exists_of_toOption_map (by decide +kernel)
  obtain ⟨hcount, hfirst, hlast⟩ : spec.binCount = 2 ∧ spec.first = 0 ∧ spec.last = 200 := by
    simpa using hends
  obtain ⟨-, hzero, htop, hbetween, hmono, hclip⟩ :=
    binIndex_of_made (.inl (show Made ⟨id, id⟩ spec from .meanScaled hspec))
  refine ⟨spec, hspec, hcount, hzero _ (.inl rfl), hzero _ (.inr ?_), ?_, hbetween _ ?_ ?_,
    hmono _ _ ?_, hclip _⟩
  · rw [hfirst]
    decide +kernel
  · rw [htop _ (by rw [hlast]; decide +kernel), hcount]
  · rw [hfirst]
    decide +kernel
  · rw [hlast]
    decide +kernel
  · decide +kernel

end BinSpec

end HeapLatency
