import HeapLatency.Trace.Series

/-!
# Classified traces

What classifying keeps of the events: for each operation its samples in the order of the events,
and nothing of the events of the other operation.
-/

namespace HeapLatency

/-- The events of one operation, in their order. -/
def eventsOf (operation : Operation) (events : List Event) : List Event :=
  events.filter fun event => event.operation = operation

theorem length_eventsOf_add (events : List Event) :
    (eventsOf .malloc events).length + (eventsOf .free events).length = events.length := by
  induction events with
  | nil => rfl
  | cons event events ih =>
    cases h : event.operation <;> simp [eventsOf, h] at ih ⊢ <;> omega

namespace Series

theorem foldr_record (cutoff : Binary64) (events : List Event) :
    events.foldr (record cutoff) {} =
      { latencies := events.map (·.latency)
        sizes := events.map fun event => mebibytes event.size
        spikes := countSpikes cutoff (events.map (·.latency)) } := by
  induction events with
  | nil => rfl
  | cons event events ih =>
    rw [List.foldr_cons, ih]
    simp [record, countSpikes, List.countP_cons]

end Series

namespace ClassifiedTrace

theorem series_record (cutoffs : Cutoffs) (event : Event) (trace : ClassifiedTrace)
    (operation : Operation) :
    (trace.record cutoffs event).series operation =
      if event.operation = operation then
        (trace.series operation).record (cutoffs.ofOperation operation) event
      else trace.series operation := by
  unfold record
  cases h : event.operation <;> cases operation <;> rfl

@[simp] theorem name_record (cutoffs : Cutoffs) (event : Event) (trace : ClassifiedTrace) :
    (trace.record cutoffs event).name = trace.name := by
  unfold record
  split <;> rfl

@[simp] theorem name_ofEvents (name : String) (cutoffs : Cutoffs) (events : List Event) :
    (ofEvents name cutoffs events).name = name := by
  induction events with
  | nil => rfl
  | cons event events ih => rw [ofEvents, List.foldr_cons, name_record, ← ofEvents, ih]

theorem series_ofEvents (name : String) (cutoffs : Cutoffs) (events : List Event)
    (operation : Operation) :
    (ofEvents name cutoffs events).series operation =
      { latencies := (eventsOf operation events).map (·.latency)
        sizes := (eventsOf operation events).map fun event => mebibytes event.size
        spikes := countSpikes (cutoffs.ofOperation operation)
          ((eventsOf operation events).map (·.latency)) } := by
  rw [← Series.foldr_record]
  induction events with
  | nil => cases operation <;> rfl
  | cons event events ih =>
    rw [ofEvents, List.foldr_cons, series_record, ← ofEvents, ih]
    by_cases h : event.operation = operation <;> simp [eventsOf, h]

theorem length_latencies_ofEvents (name : String) (cutoffs : Cutoffs) (events : List Event)
    (operation : Operation) :
    ((ofEvents name cutoffs events).series operation).latencies.length =
      (eventsOf operation events).length := by
  rw [series_ofEvents, List.length_map]

theorem length_sizes_ofEvents (name : String) (cutoffs : Cutoffs) (events : List Event)
    (operation : Operation) :
    ((ofEvents name cutoffs events).series operation).sizes.length =
      (eventsOf operation events).length := by
  rw [series_ofEvents, List.length_map]

theorem totalOps_ofEvents (name : String) (cutoffs : Cutoffs) (events : List Event) :
    (ofEvents name cutoffs events).totalOps = events.length := by
  rw [← length_eventsOf_add events, ← length_latencies_ofEvents name cutoffs events .malloc,
    ← length_latencies_ofEvents name cutoffs events .free]
  rfl

end ClassifiedTrace

end HeapLatency
