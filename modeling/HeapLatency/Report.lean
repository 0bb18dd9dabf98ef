import HeapLatency.Notice
import HeapLatency.Trace.Series

/-!
# Reports

The statistics of one trace: how many operations there were and how many of them were spikes,
for each operation and in total. A percentage of no operations is undefined, which is not zero.
-/

namespace HeapLatency

/-- Why a statistic has no value. -/
inductive ReportError where
  | undefinedPercent (what : String)
  deriving DecidableEq, Repr

namespace ReportError

def message : ReportError → String
  | .undefinedPercent what => "Percentage of " ++ what ++ " is undefined: no events"

end ReportError

def percentOf (spikes count : Nat) : Option Binary64 :=
  if count = 0 then none else some (100 * .ofNat spikes / .ofNat count)

/-- The percentage with the reason for its absence; `what` names the spikes that are counted. -/
def spikePercent (what : String) (spikes count : Nat) : Except ReportError Binary64 :=
  match percentOf spikes count with
  | some percent => .ok percent
  | none => .error (.undefinedPercent what)

structure Tally where
  ops : Nat
  spikes : Nat
  /-- Absent where it is undefined. -/
  percent : Option Binary64
  deriving DecidableEq

namespace Tally

def ofCounts (ops spikes : Nat) : Tally where
  ops
  spikes
  percent := percentOf spikes ops

end Tally

structure Report where
  name : String
  cutoffs : Cutoffs
  total : Tally
  malloc : Tally
  free : Tally
  deriving DecidableEq

namespace Report

def ofTrace (cutoffs : Cutoffs) (trace : ClassifiedTrace) : Report where
  name := trace.name
  cutoffs
  total := .ofCounts trace.totalOps (trace.malloc.spikes + trace.free.spikes)
  malloc := .ofCounts trace.malloc.latencies.length trace.malloc.spikes
  free := .ofCounts trace.free.latencies.length trace.free.spikes

def scopes (report : Report) : List (String × Tally) :=
  [("all spikes", report.total), ("malloc spikes", report.malloc), ("free spikes", report.free)]

def warnings (report : Report) : List Notice :=
  report.scopes.filterMap fun (what, tally) =>
    match spikePercent what tally.spikes tally.ops with
    | .error cause => some ⟨.warn, report.name ++ ": " ++ cause.message⟩
    | .ok _ => none

def percentText : Option Binary64 → String
  | some percent => percent.plainText ++ " %"
  | none => "undefined"

def countLine (what : String) (tally : Tally) : String :=
  "\t --- Total " ++ what ++ ": " ++ natText tally.spikes ++ " out of " ++ natText tally.ops ++
    " ops"

def percentLine (what : String) (tally : Tally) : String :=
  "\t --- Total " ++ what ++ " %: " ++ percentText tally.percent

def lines (report : Report) : List String := [
  " ** Trace aggregate statistics",
  " -- Parsed filename: " ++ report.name,
  " -- Cutoff threshold (in cycles): " ++ report.cutoffs.free.plainText ++
    " cycles for free and " ++ report.cutoffs.malloc.plainText ++ " cycles for malloc",
  countLine "spikes" report.total,
  countLine "malloc spikes" report.malloc,
  countLine "free spikes" report.free,
  percentLine "spike" report.total,
  percentLine "malloc spike" report.malloc,
  percentLine "free spike" report.free]

/-- The report as text. The last line has no line feed. -/
def summary (report : Report) : String := "\n".intercalate report.lines

end Report

end HeapLatency
