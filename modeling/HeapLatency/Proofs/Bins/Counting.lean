import HeapLatency.Bins.Histogram
import HeapLatency.Proofs.Results
import Mathlib.Algebra.BigOperators.Group.List.Basic
import Mathlib.Algebra.GroupWithZero.Nat

/-!
# Counting into bins

A histogram is built by adding one to a count for each sample. The result is a table that says
how many samples belong to each bin, and when every sample belongs to some bin the table adds up
to their number.
-/

namespace HeapLatency

variable {α : Type}

/-- For each number below a limit, how many values have it. -/
def tally (limit : Nat) (number : α → Nat) (values : List α) : List Nat :=
  (List.range limit).map fun n => values.countP fun a => number a = n

/-- For each pair of numbers below two limits, how many values have it. -/
def jointTally (rows columns : Nat) (row column : α → Nat) (values : List α) : List (List Nat) :=
  (List.range rows).map fun n => tally columns column (values.filter fun a => row a = n)

@[simp] theorem length_tally (limit : Nat) (number : α → Nat) (values : List α) :
    (tally limit number values).length = limit := by
  simp [tally]

theorem tally_nil (limit : Nat) (number : α → Nat) :
    tally limit number [] = List.replicate limit 0 := by
  simp [tally, List.map_const']

theorem jointTally_nil (rows columns : Nat) (row column : α → Nat) :
    jointTally rows columns row column [] = List.replicate rows (List.replicate columns 0) := by
  simp [jointTally, tally_nil, List.map_const']

theorem countAt?_of_length_le {counts : List Nat} {position : Nat}
    (h : counts.length ≤ position) : countAt? counts position = none := by
  rw [countAt?, List.getElem?_eq_none h]
  rfl

theorem countAt?_tally {limit : Nat} {number : α → Nat} {a : α} (values : List α)
    (h : number a < limit) :
    countAt? (tally limit number values) (number a) =
      some (tally limit number (values ++ [a])) := by
  have hget : (tally limit number values)[number a]? =
      some (values.countP fun b => number b = number a) := by
    rw [tally, List.getElem?_map, List.getElem?_range h, Option.map_some]
  rw [countAt?, hget]
  refine congrArg some (List.ext_getElem (by simp) fun n hn _ => ?_)
  rw [List.getElem_set]
  by_cases hbin : number a = n <;> simp [tally, hbin, List.countP_append]

theorem JointHistogram.countAt?_jointTally {rows columns : Nat} {row column : α → Nat} {a : α}
    (values : List α) (hrow : row a < rows) (hcolumn : column a < columns) :
    countAt? (jointTally rows columns row column values) (row a) (column a) =
      some (jointTally rows columns row column (values ++ [a])) := by
  have hget : (jointTally rows columns row column values)[row a]? =
      some (tally columns column (values.filter fun b => row b = row a)) := by
    rw [jointTally, List.getElem?_map, List.getElem?_range hrow, Option.map_some]
  rw [countAt?, hget]
  dsimp only [bind, Option.bind]
  rw [countAt?_tally _ hcolumn]
  refine congrArg some (List.ext_getElem (by simp [jointTally]) fun n hn _ => ?_)
  rw [List.getElem_set]
  by_cases hbin : row a = n <;> simp [jointTally, hbin, List.filter_append]

theorem foldlM_eq_table {β : Type} {count? : β → α → Option β} {table : List α → β}
    {seen values : List α}
    (h : ∀ a ∈ values, ∀ seen, count? (table seen) a = some (table (seen ++ [a]))) :
    values.foldlM count? (table seen) = some (table (seen ++ values)) := by
  induction values generalizing seen with
  | nil => rw [List.append_nil]; rfl
  | cons a values ih =>
    rw [List.foldlM_cons, h a List.mem_cons_self]
    show values.foldlM count? (table (seen ++ [a])) = _
    rw [ih fun b hb => h b (List.mem_cons_of_mem a hb), ← List.append_cons]

theorem countP_lt_succ (limit : Nat) (number : α → Nat) (values : List α) :
    (values.countP fun a => number a < limit + 1) =
      (values.countP fun a => number a < limit) + values.countP fun a => number a = limit := by
  induction values with
  | nil => rfl
  | cons a values ih =>
    simp only [List.countP_cons, ih, decide_eq_true_eq]
    rcases Nat.lt_trichotomy (number a) limit with hlt | heq | hgt
    · rw [if_pos (by omega), if_pos hlt, if_neg (by omega)]
      omega
    · rw [if_pos (by omega), if_neg (by omega), if_pos heq]
      omega
    · rw [if_neg (by omega), if_neg (by omega), if_neg (by omega)]
      rfl

theorem sum_tally (limit : Nat) (number : α → Nat) (values : List α) :
    (tally limit number values).sum = values.countP fun a => number a < limit := by
  induction limit with
  | zero => simp [tally]
  | succ limit ih =>
    have hstep : tally (limit + 1) number values =
        tally limit number values ++ [values.countP fun a => number a = limit] := by
      simp [tally, List.range_succ]
    rw [hstep, List.sum_append, ih, List.sum_singleton, countP_lt_succ]

theorem sum_tally_of_lt {limit : Nat} {number : α → Nat} {values : List α}
    (h : ∀ a ∈ values, number a < limit) : (tally limit number values).sum = values.length := by
  rw [sum_tally, List.countP_eq_length]
  intro a ha
  exact decide_eq_true (h a ha)

theorem map_sum_jointTally {columns : Nat} {column : α → Nat} {values : List α}
    (rows : Nat) (row : α → Nat) (h : ∀ a ∈ values, column a < columns) :
    (jointTally rows columns row column values).map List.sum = tally rows row values := by
  rw [jointTally, List.map_map, tally]
  apply List.map_congr_left
  intro n _
  have hsome : ∀ a ∈ values.filter fun a => row a = n, column a < columns :=
    fun a ha => h a (List.mem_of_mem_filter ha)
  rw [Function.comp_apply, sum_tally_of_lt hsome, List.countP_eq_length_filter]

theorem sum_jointTally_of_lt {rows columns : Nat} {row column : α → Nat} {values : List α}
    (hrow : ∀ a ∈ values, row a < rows) (hcolumn : ∀ a ∈ values, column a < columns) :
    (jointTally rows columns row column values).flatten.sum = values.length := by
  rw [List.sum_flatten, map_sum_jointTally rows row hcolumn, sum_tally_of_lt hrow]

/-! ## Positions of an axis -/

namespace BinSpec

theorem binIndex_lt {spec : BinSpec} (h : 0 < spec.binCount) (value : Binary64) :
    spec.binIndex value < spec.binCount := by
  have hle : spec.binIndex value ≤ spec.binCount - 1 := Nat.min_le_right _ _
  omega

theorem getElem?_edges {spec : BinSpec} {position : Nat} (h : position < spec.edges.length) :
    spec.edges[position]? = some (spec.edge position) := by
  rw [edge, List.getElem?_eq_getElem h, Option.getD_some]

theorem length_edges {spec : BinSpec} (h : 0 < spec.binCount) :
    spec.edges.length = spec.binCount + 1 := by
  rw [binCount] at h ⊢
  omega

theorem getElem?_ends {spec : BinSpec} (h : 0 < spec.binCount) :
    spec.edges[0]? = some spec.first ∧ spec.edges[spec.binCount]? = some spec.last := by
  have hlength := length_edges h
  exact ⟨getElem?_edges (by omega), getElem?_edges (by omega)⟩

theorem getElem?_sides {spec : BinSpec} {bin : Nat} (h : bin < spec.binCount) :
    spec.edges[bin]? = some (spec.edge bin) ∧
      spec.edges[bin + 1]? = some (spec.edge (bin + 1)) := by
  have hlength := length_edges (Nat.zero_lt_of_lt h)
  exact ⟨getElem?_edges (by omega), getElem?_edges (by omega)⟩

theorem binIndex?_eq {spec : BinSpec} (h : 0 < spec.binCount) (value : Binary64) :
    spec.binIndex? value = some (spec.binIndex value) := by
  obtain ⟨hfirst, hlast⟩ := getElem?_ends h
  rw [binIndex?, hfirst, hlast]
  rfl

theorem width?_eq {spec : BinSpec} {bin : Nat} (h : bin < spec.binCount) :
    spec.width? bin = some (spec.width bin) := by
  obtain ⟨hlower, hupper⟩ := getElem?_sides h
  rw [width?, hlower, hupper]
  rfl

theorem labels?_eq {spec : BinSpec} (h : 0 < spec.binCount) :
    spec.labels? = some spec.labels := by
  have hlength := length_edges h
  rw [labels?, slice?, if_pos ⟨by omega, Nat.le_refl _⟩, List.take_length]
  rfl

end BinSpec

/-! ## Histograms -/

namespace Histogram

/-- How many samples belong to each bin. -/
def ofSeries (bins : BinSpec) (samples : List Binary64) : Histogram where
  counts := tally bins.binCount bins.binIndex samples
  total := samples.length

/-- Without a bin there is no count to add to, so only samples that there are none of can be
counted. -/
theorem ofSeries?_eq_some_iff {bins : BinSpec} {samples : List Binary64} {histogram : Histogram} :
    ofSeries? bins samples = some histogram ↔
      (samples ≠ [] → 0 < bins.binCount) ∧ histogram = ofSeries bins samples := by
  rw [ofSeries?, ← tally_nil bins.binCount bins.binIndex]
  by_cases hplaced : samples ≠ [] → 0 < bins.binCount
  · have hfold : samples.foldlM
        (fun counts sample => do countAt? counts (← bins.binIndex? sample))
        (tally bins.binCount bins.binIndex []) =
          some (tally bins.binCount bins.binIndex ([] ++ samples)) := by
      refine foldlM_eq_table fun sample hsample seen => ?_
      have hbins := hplaced (List.ne_nil_of_mem hsample)
      rw [BinSpec.binIndex?_eq hbins]
      exact countAt?_tally seen (BinSpec.binIndex_lt hbins sample)
    rw [hfold]
    exact ⟨fun h => ⟨hplaced, (Option.some.inj h).symm⟩, fun h => congrArg some h.2.symm⟩
  · refine iff_of_false ?_ fun h => hplaced h.1
    obtain ⟨hsome, hnone⟩ := Classical.not_imp.1 hplaced
    obtain ⟨sample, rest, rfl⟩ := List.exists_cons_of_ne_nil hsome
    have hcounts (position : Nat) :
        countAt? (tally bins.binCount bins.binIndex []) position = none :=
      countAt?_of_length_le (by rw [length_tally]; omega)
    rw [List.foldlM_cons]
    cases hbin : bins.binIndex? sample <;> simp [hcounts]

theorem ofSeries?_eq {bins : BinSpec} (h : 0 < bins.binCount) (samples : List Binary64) :
    ofSeries? bins samples = some (ofSeries bins samples) :=
  ofSeries?_eq_some_iff.2 ⟨fun _ => h, rfl⟩

/-- The counts scaled to an area of one over the bins. Without samples every density is zero. -/
def density (bins : BinSpec) (histogram : Histogram) : List Binary64 :=
  if histogram.total = 0 then histogram.counts.map fun _ => 0
  else
    histogram.counts.mapIdx fun bin count =>
      .ofNat count / (.ofNat histogram.total * bins.width bin)

theorem density?_eq {bins : BinSpec} {histogram : Histogram}
    (h : histogram.counts.length = bins.binCount) :
    histogram.density? bins = some (histogram.density bins) := by
  rw [density?, density]
  split
  · rfl
  · rw [List.mapIdx_eq_zipIdx_map]
    refine mapM_eq_pure fun (count, bin) hentry => ?_
    have hbin : bin < histogram.counts.length := List.snd_lt_of_mem_zipIdx hentry
    rw [h] at hbin
    dsimp only
    rw [BinSpec.width?_eq hbin]
    rfl

theorem counts_ofSeries (bins : BinSpec) (samples : List Binary64) :
    (ofSeries bins samples).counts = tally bins.binCount bins.binIndex samples := rfl

theorem sum_counts_ofSeries {bins : BinSpec} (h : 0 < bins.binCount) (samples : List Binary64) :
    (ofSeries bins samples).counts.sum = samples.length := by
  rw [counts_ofSeries]
  exact sum_tally_of_lt fun sample _ => BinSpec.binIndex_lt h sample

end Histogram

namespace JointHistogram

/-- How many pairs of samples belong to each pair of bins. -/
def pairCounts (xBins yBins : BinSpec) (pairs : List (Binary64 × Binary64)) : List (List Nat) :=
  jointTally xBins.binCount yBins.binCount (xBins.binIndex ·.1) (yBins.binIndex ·.2) pairs

/-- The counts of pairs of samples, which only series of one length have. -/
def ofSeries (xBins yBins : BinSpec) (x y : List Binary64) : Except BinError JointHistogram :=
  if x.length ≠ y.length then .error (.lengthMismatch x.length y.length)
  else .ok { counts := pairCounts xBins yBins (x.zip y), total := x.length }

theorem countAt?_pairCounts {xBins yBins : BinSpec} (hx : 0 < xBins.binCount)
    (hy : 0 < yBins.binCount) (seen : List (Binary64 × Binary64)) (pair : Binary64 × Binary64) :
    (do countAt? (pairCounts xBins yBins seen) (← xBins.binIndex? pair.1)
          (← yBins.binIndex? pair.2)) =
      some (pairCounts xBins yBins (seen ++ [pair])) := by
  rw [BinSpec.binIndex?_eq hx, BinSpec.binIndex?_eq hy]
  exact countAt?_jointTally seen (BinSpec.binIndex_lt hx pair.1) (BinSpec.binIndex_lt hy pair.2)

theorem countAt?_eq_none {xBins yBins : BinSpec}
    (h : ¬(0 < xBins.binCount ∧ 0 < yBins.binCount)) (column row : Nat) :
    countAt? (pairCounts xBins yBins []) column row = none := by
  rw [countAt?, pairCounts, jointTally_nil, List.getElem?_replicate]
  split
  · rename_i hcolumn
    have hrows : (List.replicate yBins.binCount 0).length ≤ row := by
      rw [List.length_replicate]
      omega
    simp [countAt?_of_length_le hrows]
  · rfl

/-- The pairs of two series have bins, if there are any. -/
def Placed (xBins yBins : BinSpec) (x y : List Binary64) : Prop :=
  x.length = y.length → x ≠ [] → 0 < xBins.binCount ∧ 0 < yBins.binCount

theorem ofSeries?_eq_some_iff {xBins yBins : BinSpec} {x y : List Binary64}
    {outcome : Except BinError JointHistogram} :
    ofSeries? xBins yBins x y = some outcome ↔
      Placed xBins yBins x y ∧ outcome = ofSeries xBins yBins x y := by
  have hnil : pairCounts xBins yBins [] =
      List.replicate xBins.binCount (List.replicate yBins.binCount 0) := jointTally_nil _ _ _ _
  rw [ofSeries?, ofSeries, Placed, ← hnil]
  by_cases hlength : x.length = y.length
  case neg =>
    rw [if_pos hlength, if_pos hlength]
    exact ⟨fun h => ⟨fun heq => absurd heq hlength, (Option.some.inj h).symm⟩,
      fun h => congrArg some h.2.symm⟩
  rw [if_neg (not_not_intro hlength), if_neg (not_not_intro hlength)]
  by_cases hplaced : x ≠ [] → 0 < xBins.binCount ∧ 0 < yBins.binCount
  · have hfold : (x.zip y).foldlM
        (fun counts pair => do
          countAt? counts (← xBins.binIndex? pair.1) (← yBins.binIndex? pair.2))
        (pairCounts xBins yBins []) = some (pairCounts xBins yBins ([] ++ x.zip y)) := by
      refine foldlM_eq_table fun pair hpair seen => ?_
      obtain ⟨hx, hy⟩ := hplaced (List.ne_nil_of_mem (List.of_mem_zip hpair).1)
      exact countAt?_pairCounts hx hy seen pair
    rw [hfold]
    exact ⟨fun h => ⟨fun _ => hplaced, (Option.some.inj h).symm⟩, fun h => congrArg some h.2.symm⟩
  · refine iff_of_false ?_ fun h => hplaced (h.1 hlength)
    obtain ⟨hsome, hnone⟩ := Classical.not_imp.1 hplaced
    obtain ⟨first, others, rfl⟩ := List.exists_cons_of_ne_nil hsome
    obtain ⟨second, rest, rfl⟩ := List.exists_cons_of_length_eq_add_one hlength.symm
    rw [List.zip_cons_cons, List.foldlM_cons]
    cases hx : xBins.binIndex? first <;> cases hy : yBins.binIndex? second <;>
      simp [countAt?_eq_none hnone]

theorem ofSeries?_eq {xBins yBins : BinSpec} (hx : 0 < xBins.binCount) (hy : 0 < yBins.binCount)
    (x y : List Binary64) :
    ofSeries? xBins yBins x y = some (ofSeries xBins yBins x y) :=
  ofSeries?_eq_some_iff.2 ⟨fun _ _ => ⟨hx, hy⟩, rfl⟩

theorem ofSeries_of_length_eq {x y : List Binary64} (xBins yBins : BinSpec)
    (h : x.length = y.length) :
    ofSeries xBins yBins x y =
      .ok
        { counts := jointTally xBins.binCount yBins.binCount (xBins.binIndex ·.1)
            (yBins.binIndex ·.2) (x.zip y)
          total := x.length } := if_neg (not_not_intro h)

theorem length_eq_of_ofSeries {xBins yBins : BinSpec} {x y : List Binary64}
    {joint : JointHistogram} (h : ofSeries xBins yBins x y = .ok joint) : x.length = y.length := by
  by_contra hne
  rw [ofSeries, if_pos hne] at h
  cases h

theorem maxCount_eq_zero_or {xBins yBins : BinSpec} {x y : List Binary64} {joint : JointHistogram}
    (hplaced : Placed xBins yBins x y) (h : ofSeries xBins yBins x y = .ok joint) :
    joint.maxCount = 0 ∨ 0 < yBins.binCount := by
  have hlength := length_eq_of_ofSeries h
  by_cases hsome : x = []
  · left
    rw [ofSeries_of_length_eq xBins yBins hlength, hsome, List.zip_nil_left, jointTally_nil] at h
    cases h
    rw [maxCount, List.flatten_replicate_replicate]
    induction xBins.binCount * yBins.binCount with
    | zero => rfl
    | succ count ih => exact ih
  · exact .inr (hplaced hlength hsome).2

theorem sum_counts_ofSeries {xBins yBins : BinSpec} {x y : List Binary64}
    (hx : 0 < xBins.binCount) (hy : 0 < yBins.binCount) (h : x.length = y.length) :
    ∃ histogram, ofSeries xBins yBins x y = .ok histogram ∧
      histogram.counts.flatten.sum = x.length ∧ histogram.total = x.length := by
  refine ⟨_, ofSeries_of_length_eq xBins yBins h, ?_, rfl⟩
  rw [sum_jointTally_of_lt (fun pair _ => BinSpec.binIndex_lt hx pair.1)
    (fun pair _ => BinSpec.binIndex_lt hy pair.2), List.length_zip, ← h, Nat.min_self]

end JointHistogram

end HeapLatency
