import HeapLatency.Proofs.Number.Order
import HeapLatency.Proofs.Report.Percentages

/-!
# Reports and cutoffs

A lower cutoff never makes fewer spikes of the same events, and changes nothing else that a report
counts.
-/

namespace HeapLatency

variable {low high : Binary64}

theorem isSpike_of_le (h : low ≤ high) {latency : UInt64} (hspike : isSpike high latency = true) :
    isSpike low latency = true := by
  rw [isSpike, decide_eq_true_eq] at hspike ⊢
  exact Binary64.lt_of_le_of_lt h hspike

theorem countSpikes_le_countSpikes (h : low ≤ high) (latencies : List UInt64) :
    countSpikes high latencies ≤ countSpikes low latencies :=
  List.countP_mono_left fun _ _ => isSpike_of_le h

/-- Both tallies are of the same operations, and the first has at least the spikes of the other. -/
structure Tally.Outnumbers (more fewer : Tally) : Prop where
  ops : more.ops = fewer.ops
  spikes : fewer.spikes ≤ more.spikes
  undefined : more.percent = none ↔ fewer.percent = none

theorem Tally.outnumbers_ofCounts {ops ops' more fewer : Nat} (hops : ops = ops')
    (h : fewer ≤ more) : (Tally.ofCounts ops more).Outnumbers (.ofCounts ops' fewer) where
  ops := hops
  spikes := h
  undefined := by
    subst hops
    exact percentOf_eq_none_iff.trans percentOf_eq_none_iff.symm

namespace Cutoffs

/-- No cutoff of the first pair is above that of the other, and neither pair has NaN. -/
structure AtMost (low high : Cutoffs) : Prop where
  malloc : low.malloc ≤ high.malloc
  free : low.free ≤ high.free

theorem AtMost.ofOperation {low high : Cutoffs} (h : low.AtMost high) (operation : Operation) :
    low.ofOperation operation ≤ high.ofOperation operation := by
  cases operation with
  | malloc => exact h.malloc
  | free => exact h.free

end Cutoffs

/-- Lower cutoffs give at least as many spikes of each operation and in total. The series, the
numbers of operations and what is undefined do not depend on the cutoffs at all. -/
theorem spikes_of_lower_cutoffs :
    (∀ latencies, ∀ low high : Binary64, low ≤ high →
      countSpikes high latencies ≤ countSpikes low latencies) ∧
    ∀ (name : String) (events : List Event) (low high : Cutoffs), low.AtMost high →
      let lenient := ClassifiedTrace.ofEvents name low events
      let strict := ClassifiedTrace.ofEvents name high events
      (∀ operation,
        (lenient.series operation).latencies = (strict.series operation).latencies ∧
        (lenient.series operation).sizes = (strict.series operation).sizes ∧
        (strict.series operation).spikes ≤ (lenient.series operation).spikes) ∧
      (Report.ofTrace low lenient).total.Outnumbers (Report.ofTrace high strict).total ∧
      (Report.ofTrace low lenient).malloc.Outnumbers (Report.ofTrace high strict).malloc ∧
      (Report.ofTrace low lenient).free.Outnumbers (Report.ofTrace high strict).free := by
  refine ⟨fun latencies _ _ hle => countSpikes_le_countSpikes hle latencies, ?_⟩
  intro name events low high h lenient strict
  have hseries (operation : Operation) :
      (lenient.series operation).latencies = (strict.series operation).latencies ∧
      (lenient.series operation).sizes = (strict.series operation).sizes ∧
      (strict.series operation).spikes ≤ (lenient.series operation).spikes := by
    rw [ClassifiedTrace.series_ofEvents, ClassifiedTrace.series_ofEvents]
    exact ⟨rfl, rfl, countSpikes_le_countSpikes (h.ofOperation operation) _⟩
  obtain ⟨hmalloc, -, hmallocs⟩ := hseries .malloc
  obtain ⟨hfree, -, hfrees⟩ := hseries .free
  have htotal : lenient.totalOps = strict.totalOps := by
    rw [ClassifiedTrace.totalOps_ofEvents, ClassifiedTrace.totalOps_ofEvents]
  refine ⟨hseries, ?_, ?_, ?_⟩
  · exact Tally.outnumbers_ofCounts htotal (Nat.add_le_add hmallocs hfrees)
  · exact Tally.outnumbers_ofCounts (congrArg List.length hmalloc) hmallocs
  · exact Tally.outnumbers_ofCounts (congrArg List.length hfree) hfrees

/-- The default cutoffs, and lower ones of which one is the very latency of an event. -/
theorem spikes_of_lower_cutoffs_sample :
    let events := [⟨.malloc, 1, 0, 500⟩, ⟨.malloc, 1, 1, 501⟩]
    let lenient := Report.ofTrace ⟨500, 800⟩ (ClassifiedTrace.ofEvents "run" ⟨500, 800⟩ events)
    let strict := Report.ofTrace {} (ClassifiedTrace.ofEvents "run" {} events)
    (Cutoffs.mk 500 800).AtMost {} ∧ lenient.total.Outnumbers strict.total ∧
      lenient.total.spikes = 1 ∧ strict.total.spikes = 0 := by
  intro events lenient strict
  have h : (Cutoffs.mk 500 800).AtMost {} := ⟨by decide +kernel, by decide +kernel⟩
  have htotal : lenient.total.Outnumbers strict.total :=
    (spikes_of_lower_cutoffs.2 "run" events _ _ h).2.1
  exact ⟨h, htotal, by decide +kernel, by decide +kernel⟩

end HeapLatency
