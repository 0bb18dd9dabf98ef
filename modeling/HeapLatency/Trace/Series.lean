import HeapLatency.Config.Basic
import HeapLatency.Trace.Event

/-!
# Series

The events of a trace sorted by operation. Each operation has its latencies and its chunk
sizes in the order of the events, so that the samples at one position of both belong to one
event, and the number of its spikes.
-/

namespace HeapLatency

/-- Strictly slower than the cutoff. -/
def isSpike (cutoff : Binary64) (latency : UInt64) : Bool :=
  decide (cutoff < .ofNat latency.toNat)

def countSpikes (cutoff : Binary64) (latencies : List UInt64) : Nat :=
  latencies.countP (isSpike cutoff)

def mebibytes (size : UInt64) : Binary64 := .ofNat size.toNat / (1024 * 1024)

/-- The samples of one operation. -/
structure Series where
  latencies : List UInt64 := []
  sizes : List Binary64 := []
  spikes : Nat := 0
  deriving DecidableEq

namespace Series

def record (cutoff : Binary64) (event : Event) (series : Series) : Series where
  latencies := event.latency :: series.latencies
  sizes := mebibytes event.size :: series.sizes
  spikes := series.spikes + if isSpike cutoff event.latency then 1 else 0

end Series

/-- A trace with its events sorted by operation. -/
structure ClassifiedTrace where
  name : String
  malloc : Series := {}
  free : Series := {}
  deriving DecidableEq

namespace Cutoffs

def ofOperation (cutoffs : Cutoffs) : Operation → Binary64
  | .malloc => cutoffs.malloc
  | .free => cutoffs.free

end Cutoffs

namespace ClassifiedTrace

def series (trace : ClassifiedTrace) : Operation → Series
  | .malloc => trace.malloc
  | .free => trace.free

def record (cutoffs : Cutoffs) (event : Event) (trace : ClassifiedTrace) : ClassifiedTrace :=
  match event.operation with
  | .malloc => { trace with malloc := trace.malloc.record cutoffs.malloc event }
  | .free => { trace with free := trace.free.record cutoffs.free event }

/-- Sorts events by operation and counts their spikes. -/
def ofEvents (name : String) (cutoffs : Cutoffs) (events : List Event) : ClassifiedTrace :=
  events.foldr (record cutoffs) { name }

def totalOps (trace : ClassifiedTrace) : Nat :=
  trace.malloc.latencies.length + trace.free.latencies.length

end ClassifiedTrace

end HeapLatency
