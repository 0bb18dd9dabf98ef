import HeapLatency.Proofs.Trace.Classified
import HeapLatency.Proofs.Trace.Cycles
import HeapLatency.Proofs.Trace.Outcome
import HeapLatency.Proofs.Trace.Rows

/-!
# Spikes of a trace

A latency is compared with a cutoff after it was rounded to the format, which for counts of more
than 53 bits may change the answer. It does not for the latencies of a trace: they are whole parts
of numbers of the format and so not rounded at all, and the greatest count is rounded up.
-/

namespace HeapLatency

namespace Row

open Binary64

variable {field : List Char} {cycles : UInt64}

theorem WholePart.held {n : Nat} (h : WholePart field n) : Held (n * unitsPerOne) := by
  obtain ⟨number, value, -, hvalue, hwhole⟩ := h
  obtain ⟨negative, units, held, -, rfl⟩ := exists_finite_of_value? hvalue
  rw [towardZero_value] at hwhole
  have hunits := signed_of_nonneg (hwhole ▸ Int.natCast_nonneg n)
  rw [hwhole, Int.natCast_inj] at hunits
  rw [hunits]
  exact held_div held

/-- The greatest count is rounded to `2 ^ 64`. -/
theorem notBelow_maxWord : NotBelow maxWord := by
  rw [NotBelow]
  decide +kernel

theorem notBelow_of_parseCycles (h : parseCycles field = .ok cycles) : NotBelow cycles.toNat := by
  rcases parseCycles_eq_ok_iff.1 h with hwhole | ⟨hgreatest, -⟩
  · exact .of_held hwhole.held
  · rw [hgreatest]
    exact notBelow_maxWord

theorem notBelow_of_parse {row : List Char} {event : Event} (h : parse row = .ok event) :
    NotBelow event.latency.toNat := by
  obtain ⟨-, -, -, cycles, -, -, -, -, hcycles, -⟩ := parse_eq_ok_iff.1 h
  exact notBelow_of_parseCycles hcycles

end Row

namespace Trace

theorem exists_row_of_mem_events {bytes : Bytes} {trace : Trace} {event : Event}
    (h : parse bytes = .ok trace) (hevent : event ∈ trace.events) :
    ∃ row, Row.parse row = .ok event := by
  obtain ⟨-, -, hevents⟩ := map_events_parse_eq_ok_iff.1 (map_eq_ok.2 ⟨trace, h, rfl⟩)
  rw [hevents] at hevent
  obtain ⟨⟨row, _⟩, hentry, rfl⟩ := List.mem_map.1 hevent
  obtain ⟨line, -, hline⟩ := List.mem_filterMap.1 hentry
  obtain ⟨row', -, hparsed⟩ := Option.bind_eq_some_iff.1 hline
  obtain ⟨event, hparse, heq⟩ := Option.map_eq_some_iff.1 hparsed
  cases heq
  exact ⟨row, eq_ok_of_toOption hparse⟩

end Trace

theorem isSpike_iff_of_notBelow {cutoff : Binary64} {value : ℚ} {latency : UInt64}
    (hlatency : Binary64.NotBelow latency.toNat) (hcutoff : cutoff.value? = some value) :
    isSpike cutoff latency = true ↔ value < latency.toNat := by
  rw [isSpike, decide_eq_true_eq, Binary64.lt_ofNat_iff hlatency hcutoff]

/-- The spikes of a trace are the events of the operation whose latency is greater than the cutoff
as a number: for what reading a trace gives, rounding the latency changes no answer. -/
theorem spikes_exact {bytes : Bytes} {trace : Trace} {cutoffs : Cutoffs} {operation : Operation}
    {cutoff : ℚ} (hparse : Trace.parse bytes = .ok trace)
    (hcutoff : (cutoffs.ofOperation operation).value? = some cutoff) (name : String) :
    (∀ event ∈ trace.events,
      isSpike (cutoffs.ofOperation operation) event.latency = true ↔
        cutoff < event.latency.toNat) ∧
    ((ClassifiedTrace.ofEvents name cutoffs trace.events).series operation).spikes =
      trace.events.countP fun event =>
        decide (event.operation = operation ∧ cutoff < event.latency.toNat) := by
  have hspike : ∀ event ∈ trace.events,
      (isSpike (cutoffs.ofOperation operation) event.latency = true ↔
        cutoff < event.latency.toNat) := by
    intro event hevent
    obtain ⟨row, hrow⟩ := Trace.exists_row_of_mem_events hparse hevent
    exact isSpike_iff_of_notBelow (Row.notBelow_of_parse hrow) hcutoff
  refine ⟨hspike, ?_⟩
  rw [ClassifiedTrace.series_ofEvents, countSpikes, eventsOf, List.countP_map, List.countP_filter]
  refine List.countP_congr fun event hevent => ?_
  rw [Bool.and_eq_true, Function.comp_apply, hspike event hevent, decide_eq_true_eq,
    decide_eq_true_eq, and_comm]

/-- A latency at the cutoff, one above it and one past 64 bits. -/
theorem spikes_exact_sample :
    ∃ trace, Trace.parse (bytesOf "#\n#\nmalloc,1,1,2000.5\nmalloc,1,2,2001\nmalloc,1,3,1e30\n") =
        .ok trace ∧
      (Cutoffs.ofOperation {} .malloc).value? = some 2000 ∧
      ((ClassifiedTrace.ofEvents "run" {} trace.events).series .malloc).spikes = 2 := by
  have hparse : Trace.parse
      (bytesOf "#\n#\nmalloc,1,1,2000.5\nmalloc,1,2,2001\nmalloc,1,3,1e30\n") =
      .ok ⟨[⟨.malloc, 1, 1, 2000⟩, ⟨.malloc, 1, 2, 2001⟩,
        ⟨.malloc, 1, 3, 18446744073709551615⟩], 0⟩ :=
    eq_ok_of_toOption (by decide +kernel)
  have hcutoff : (Cutoffs.ofOperation {} .malloc).value? = some 2000 := by
    have hdefault : Cutoffs.ofOperation {} .malloc = Binary64.ofNat 2000 := by decide +kernel
    rw [hdefault, Binary64.value?_ofNat (by decide), Nat.cast_ofNat]
  refine ⟨_, hparse, hcutoff, ?_⟩
  rw [(spikes_exact hparse hcutoff "run").2]
  decide +kernel

/-- Other counts may be rounded down to the cutoff. -/
example : isSpike (.ofNat (2 ^ 53)) (2 ^ 53 + 1) = false := by decide +kernel

end HeapLatency
