import HeapLatency.Proofs.Bins.Counting
import HeapLatency.Proofs.Bins.Policies

/-!
# Bucketing

A histogram counts each sample at its bin and nowhere else, and a joint histogram, summed along
either axis, is the histogram of the other. The counts do not depend on the order of the samples.
-/

namespace HeapLatency

variable {α : Type}

/-- For each column of a table, the sum over its rows. -/
def columnSums (columns : Nat) (counts : List (List Nat)) : List Nat :=
  (List.range columns).map fun n => (counts.map fun row => row[n]?.getD 0).sum

theorem tally_perm {values others : List α} (limit : Nat) (number : α → Nat)
    (h : values.Perm others) : tally limit number values = tally limit number others :=
  List.map_congr_left fun _ _ => h.countP_eq _

theorem tally_map {β : Type} (limit : Nat) (number : β → Nat) (f : α → β) (values : List α) :
    tally limit (fun a => number (f a)) values = tally limit number (values.map f) :=
  List.map_congr_left fun _ _ => by rw [List.countP_map]; rfl

theorem getElem?_tally {limit n : Nat} (number : α → Nat) (values : List α) (h : n < limit) :
    (tally limit number values)[n]? = some (values.countP fun a => number a = n) := by
  rw [tally, List.getElem?_map, List.getElem?_range h, Option.map_some]

/-- One column of the table of pairs is a table of the values in it. -/
theorem map_getElem?_jointTally {columns n : Nat} (rows : Nat) (row column : α → Nat)
    (values : List α) (h : n < columns) :
    ((jointTally rows columns row column values).map fun counts => counts[n]?.getD 0) =
      tally rows row (values.filter fun a => column a = n) := by
  rw [jointTally, List.map_map, tally]
  apply List.map_congr_left
  intro m _
  rw [Function.comp_apply, getElem?_tally column _ h, Option.getD_some, List.countP_filter,
    List.countP_filter]
  simp only [Bool.and_comm]

theorem columnSums_jointTally {rows : Nat} {row : α → Nat} {values : List α} (columns : Nat)
    (column : α → Nat) (h : ∀ a ∈ values, row a < rows) :
    columnSums columns (jointTally rows columns row column values) =
      tally columns column values := by
  rw [columnSums, tally]
  apply List.map_congr_left
  intro n hn
  have hsome : ∀ a ∈ values.filter fun a => column a = n, row a < rows :=
    fun a ha => h a (List.mem_of_mem_filter ha)
  rw [map_getElem?_jointTally rows row column values (List.mem_range.1 hn), sum_tally_of_lt hsome,
    List.countP_eq_length_filter]

namespace Histogram

/-- What it means that samples were counted without loss. -/
structure Exact (histogram : Histogram) (bins : BinSpec) (samples : List Binary64) : Prop where
  length_counts : histogram.counts.length = bins.binCount
  count : ∀ bin < bins.binCount, histogram.counts[bin]? =
    some (samples.countP fun sample => bins.binIndex sample = bin)
  sum_counts : histogram.counts.sum = histogram.total
  total : histogram.total = samples.length

theorem exact_ofSeries {bins : BinSpec} (h : 0 < bins.binCount) (samples : List Binary64) :
    (ofSeries bins samples).Exact bins samples where
  length_counts := by rw [counts_ofSeries, length_tally]
  count bin hbin := by rw [counts_ofSeries, getElem?_tally _ _ hbin]
  sum_counts := sum_counts_ofSeries h samples
  total := rfl

theorem ofSeries_perm {samples others : List Binary64} (bins : BinSpec)
    (h : samples.Perm others) : ofSeries bins samples = ofSeries bins others := by
  have hcounts : (ofSeries bins samples).counts = (ofSeries bins others).counts := by
    rw [counts_ofSeries, counts_ofSeries, tally_perm _ _ h]
  have htotal : (ofSeries bins samples).total = (ofSeries bins others).total := h.length_eq
  exact congrArg₂ mk hcounts htotal

end Histogram

namespace JointHistogram

/-- What it means that pairs of samples were counted without loss: summed along either axis they
are the counts of the other. -/
structure Exact (joint : JointHistogram) (xBins yBins : BinSpec) (x y : List Binary64) :
    Prop where
  row_sums : joint.counts.map List.sum = (Histogram.ofSeries xBins x).counts
  column_sums : columnSums yBins.binCount joint.counts = (Histogram.ofSeries yBins y).counts
  length_rows : ∀ row ∈ joint.counts, row.length = yBins.binCount
  sum_counts : joint.counts.flatten.sum = joint.total
  total : joint.total = x.length

theorem exact_ofSeries {xBins yBins : BinSpec} {x y : List Binary64} {joint : JointHistogram}
    (hx : 0 < xBins.binCount) (hy : 0 < yBins.binCount) (h : x.length = y.length)
    (hjoint : ofSeries xBins yBins x y = .ok joint) : joint.Exact xBins yBins x y := by
  rw [ofSeries_of_length_eq xBins yBins h] at hjoint
  cases hjoint
  have hrow : ∀ pair ∈ x.zip y, xBins.binIndex pair.1 < xBins.binCount :=
    fun pair _ => BinSpec.binIndex_lt hx pair.1
  have hcolumn : ∀ pair ∈ x.zip y, yBins.binIndex pair.2 < yBins.binCount :=
    fun pair _ => BinSpec.binIndex_lt hy pair.2
  constructor
  case row_sums =>
    rw [map_sum_jointTally _ _ hcolumn, tally_map _ _ Prod.fst, List.map_fst_zip h.le,
      Histogram.counts_ofSeries]
  case column_sums =>
    rw [columnSums_jointTally _ _ hrow, tally_map _ _ Prod.snd, List.map_snd_zip h.ge,
      Histogram.counts_ofSeries]
  case length_rows =>
    intro row hmem
    obtain ⟨n, _, rfl⟩ := List.mem_map.1 hmem
    exact length_tally _ _ _
  case sum_counts =>
    rw [sum_jointTally_of_lt hrow hcolumn, List.length_zip, ← h, Nat.min_self]
  case total => rfl

theorem ofSeries_eq_error_iff {xBins yBins : BinSpec} {x y : List Binary64} {error : BinError} :
    ofSeries xBins yBins x y = .error error ↔
      x.length ≠ y.length ∧ error = .lengthMismatch x.length y.length := by
  rw [ofSeries]
  split
  case isTrue h => simp [h, eq_comm]
  case isFalse h => simp [h]

end JointHistogram

/-- Over the bins of any policy every sample has a bin, each bin counts just its own samples, in
whatever order they come, and pairs of samples are counted just as their two series are. Only
series of different lengths have no joint counts. Nothing is looked up where it is not. -/
theorem bucketing_exact {scale : LogScale} {xBins yBins : BinSpec}
    (hx : BinSpec.Made scale xBins) (hy : BinSpec.Made scale yBins) (x y : List Binary64) :
    (xBins.first < xBins.last ∧ ∀ value, xBins.binIndex value < xBins.binCount ∧
      xBins.binIndex? value = some (xBins.binIndex value)) ∧
    (Histogram.ofSeries? xBins x = some (Histogram.ofSeries xBins x) ∧
      Histogram.ofSeries? yBins y = some (Histogram.ofSeries yBins y)) ∧
    (Histogram.ofSeries xBins x).Exact xBins x ∧
    (∀ reordered, x.Perm reordered →
      Histogram.ofSeries? xBins reordered = some (Histogram.ofSeries xBins x)) ∧
    (∀ error, JointHistogram.ofSeries? xBins yBins x y = some (.error error) ↔
      x.length ≠ y.length ∧ error = .lengthMismatch x.length y.length) ∧
    (x.length = y.length → ∃ joint,
      JointHistogram.ofSeries? xBins yBins x y = some (.ok joint) ∧
        joint.Exact xBins yBins x y) := by
  have hxcount : 0 < xBins.binCount := hx.sound.binCount_pos
  have hycount : 0 < yBins.binCount := hy.sound.binCount_pos
  have hpairs := JointHistogram.ofSeries?_eq hxcount hycount x y
  refine ⟨⟨hx.sound.first_lt_last, fun value =>
      ⟨BinSpec.binIndex_lt hxcount value, BinSpec.binIndex?_eq hxcount value⟩⟩,
    ⟨Histogram.ofSeries?_eq hxcount x, Histogram.ofSeries?_eq hycount y⟩,
    Histogram.exact_ofSeries hxcount x, fun reordered h => ?_, fun error => ?_, fun h => ?_⟩
  · rw [Histogram.ofSeries?_eq hxcount, Histogram.ofSeries_perm xBins h]
  · rw [hpairs, Option.some_inj]
    exact JointHistogram.ofSeries_eq_error_iff
  · have hjoint := JointHistogram.ofSeries_of_length_eq xBins yBins h
    exact ⟨_, hpairs.trans (congrArg some hjoint),
      JointHistogram.exact_ofSeries hxcount hycount h hjoint⟩

/-- Not a number, an infinity and samples beyond the edges among the samples. -/
theorem bucketing_exact_sample :
    ∃ xBins yBins joint,
      BinSpec.meanScaled (samplesOf [50, 150]) 3 = .ok xBins ∧
      BinSpec.dataSpan [samplesOf [7]] 2 = .ok yBins ∧
      (Histogram.ofSeries xBins [10, .nan, 99999]).Exact xBins [10, .nan, 99999] ∧
      Histogram.ofSeries? xBins [.nan, 10, 99999] =
        some (Histogram.ofSeries xBins [10, .nan, 99999]) ∧
      JointHistogram.ofSeries? xBins yBins [10, .nan, 99999] [.infinite true, 7, 8] =
        some (.ok joint) ∧
      joint.Exact xBins yBins [10, .nan, 99999] [.infinite true, 7, 8] := by
  obtain ⟨xBins, hxBins⟩ : ∃ xBins, BinSpec.meanScaled (samplesOf [50, 150]) 3 = .ok xBins :=
    exists_of_isOk (by decide +kernel)
  obtain ⟨yBins, hyBins⟩ : ∃ yBins, BinSpec.dataSpan [samplesOf [7]] 2 = .ok yBins :=
    exists_of_isOk (by decide +kernel)
  have hx : BinSpec.Made ⟨id, id⟩ xBins := .meanScaled hxBins
  obtain ⟨-, -, hexact, hperm, -, hjoint⟩ :=
    bucketing_exact hx (.dataSpan hyBins) [10, .nan, 99999] [.infinite true, 7, 8]
  obtain ⟨joint, hjoint, hjointexact⟩ := hjoint (by simp only [List.length_cons, List.length_nil])
  exact ⟨xBins, yBins, joint, hxBins, hyBins, hexact,
    hperm _ (.swap _ _ _), hjoint, hjointexact⟩

end HeapLatency
