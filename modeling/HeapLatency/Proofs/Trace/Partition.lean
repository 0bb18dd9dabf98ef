import HeapLatency.Proofs.Number.Arithmetic
import HeapLatency.Proofs.Trace.Classified

/-!
# Traces sorted by operation

Classifying sorts the events of a trace by operation and loses none. The samples of an operation
are those of its events in their order, each size rounded once, and the events of two traces in a
row give the samples of the one and then those of the other.
-/

namespace HeapLatency

/-! ## Sizes -/

namespace Binary64

theorem ofExact_congr {num den num' den' : Nat}
    (h : roundMagnitude num den = roundMagnitude num' den') (negative : Bool) :
    ofExact negative num den = ofExact negative num' den' := by
  simp only [ofExact, h]

/-- Dividing by a power of two what was rounded before does not round a second time. -/
theorem roundMagnitude_shiftRight {num : Nat} (h : 1 <<< 52 ≤ num) (k : Nat) :
    roundMagnitude (roundMagnitude (num <<< k) 1) (1 <<< k) =
      roundMagnitude (num <<< k) (1 <<< k) := by
  have hscaled (m : Nat) : roundMagnitude (m <<< k) (1 <<< k) = roundMagnitude m 1 := by
    rw [Nat.shiftLeft_eq, Nat.shiftLeft_eq, roundMagnitude_mul_right (Nat.two_pow_pos k)]
  rw [roundMagnitude_shiftLeft Nat.one_pos (by rwa [Nat.mul_one]), hscaled, hscaled,
    roundMagnitude_one (aligned_roundMagnitude num 1)]

end Binary64

theorem mebibytes_eq (size : UInt64) :
    mebibytes size = .ofExact false (size.toNat * Binary64.unitsPerOne) (1 <<< 20) := by
  have hmebibyte : (1024 * 1024 : Binary64) = .ofNat (1 <<< 20) := by decide +kernel
  have hword : size.toNat * Binary64.unitsPerOne ≤ (1 <<< 1138) * 1 := by
    rw [Nat.mul_one]
    exact Binary64.word_units_le (Nat.le_of_lt size.toNat_lt)
  obtain ⟨units, held, heq, -⟩ :=
    Binary64.ofExact_le false (Binary64.held_shiftLeft (by decide) (by decide)) Nat.one_pos hword
  rw [mebibytes, hmebibyte, Binary64.ofNat, heq, Binary64.div_ofNat (by decide) (by decide),
    Binary64.units_of_ofExact heq]
  apply Binary64.ofExact_congr
  by_cases hnone : size.toNat = 0
  · rw [hnone, Nat.zero_mul]
    rfl
  · have hunits : size.toNat * Binary64.unitsPerOne = (size.toNat <<< 1054) <<< 20 := by
      have hplaces : size.toNat * Binary64.unitsPerOne = size.toNat <<< 1074 := by
        rw [Binary64.unitsPerOne, Nat.one_shiftLeft, Nat.shiftLeft_eq]
      rw [hplaces, ← Nat.shiftLeft_add]
    have hsome (k : Nat) : 1 <<< k ≤ size.toNat <<< k := by
      rw [Nat.shiftLeft_eq, Nat.shiftLeft_eq]
      exact Nat.mul_le_mul_right _ (Nat.pos_of_ne_zero hnone)
    rw [hunits]
    apply Binary64.roundMagnitude_shiftRight
    exact Nat.le_trans (Binary64.one_shiftLeft_le (by decide)) (hsome 1054)

/-! ## Events -/

theorem eventsOf_append (operation : Operation) (events others : List Event) :
    eventsOf operation (events ++ others) =
      eventsOf operation events ++ eventsOf operation others :=
  List.filter_append events others

theorem perm_eventsOf (events : List Event) :
    (eventsOf .malloc events ++ eventsOf .free events).Perm events := by
  have hfree : eventsOf .free events =
      events.filter fun event => !decide (event.operation = .malloc) := by
    refine List.filter_congr fun event _ => ?_
    cases event.operation <;> rfl
  rw [hfree]
  exact List.filter_append_perm _ events

/-! ## Series -/

namespace Series

/-- The samples of two series one after the other. -/
def append (series others : Series) : Series where
  latencies := series.latencies ++ others.latencies
  sizes := series.sizes ++ others.sizes
  spikes := series.spikes + others.spikes

instance : Append Series := ⟨append⟩

end Series

theorem countSpikes_append (cutoff : Binary64) (latencies others : List UInt64) :
    countSpikes cutoff (latencies ++ others) =
      countSpikes cutoff latencies + countSpikes cutoff others :=
  List.countP_append

theorem countSpikes_le_length (cutoff : Binary64) (latencies : List UInt64) :
    countSpikes cutoff latencies ≤ latencies.length :=
  List.countP_le_length

namespace ClassifiedTrace

theorem series_ofEvents_append (name : String) (cutoffs : Cutoffs) (events others : List Event)
    (operation : Operation) :
    (ofEvents name cutoffs (events ++ others)).series operation =
      (ofEvents name cutoffs events).series operation ++
        (ofEvents name cutoffs others).series operation := by
  simp only [series_ofEvents, eventsOf_append, List.map_append, countSpikes_append]
  rfl

/-- Classifying divides the events between the operations. Of each operation the samples are those
of its events, in the order of the trace and side by side, and the spikes are those of its
latencies above its own cutoff; two traces in a row are classified one after the other. -/
theorem sorted_by_operation (name : String) (cutoffs : Cutoffs) (events : List Event) :
    (eventsOf .malloc events ++ eventsOf .free events).Perm events ∧
    (ofEvents name cutoffs events).totalOps = events.length ∧
    ∀ operation,
      let own := eventsOf operation events
      let series := (ofEvents name cutoffs events).series operation
      own.Sublist events ∧
      series.latencies = own.map (·.latency) ∧
      series.sizes =
        own.map (fun event => .ofExact false (event.size.toNat * Binary64.unitsPerOne) (1 <<< 20)) ∧
      series.latencies.length = series.sizes.length ∧
      series.spikes = countSpikes (cutoffs.ofOperation operation) series.latencies ∧
      series.spikes ≤ series.latencies.length ∧
      ∀ others, (ofEvents name cutoffs (events ++ others)).series operation =
        series ++ (ofEvents name cutoffs others).series operation := by
  refine ⟨perm_eventsOf events, totalOps_ofEvents name cutoffs events, ?_⟩
  intro operation own series
  have hseries := series_ofEvents name cutoffs events operation
  have hspikes : series.spikes =
      countSpikes (cutoffs.ofOperation operation) series.latencies := by
    rw [show series = _ from hseries]
  refine ⟨List.filter_sublist, ?_, ?_, ?_, hspikes, ?_, ?_⟩
  · rw [show series = _ from hseries]
  · rw [show series = _ from hseries]
    exact List.map_congr_left fun event _ => mebibytes_eq event.size
  · rw [length_latencies_ofEvents, length_sizes_ofEvents]
  · rw [hspikes]
    exact countSpikes_le_length _ _
  · intro others
    exact series_ofEvents_append name cutoffs events others operation

end ClassifiedTrace

end HeapLatency
