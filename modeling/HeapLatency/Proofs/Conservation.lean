import HeapLatency.Proofs.Chart.Counts
import HeapLatency.Proofs.Trace.Outcome
import HeapLatency.Report
import Mathlib.Data.List.TakeWhile

/-!
# Conservation of rows

Every row of a trace is one event, and every event is counted once wherever events are counted:
in the report, in the charts of the trace, and in every comparison that the trace is part of.
-/

namespace HeapLatency

/-! ## Rows -/

theorem trim_eq_nil_iff {text : List Char} : trim text = [] ↔ text.all isBlank = true := by
  rw [trim, List.reverse_eq_nil_iff, List.dropWhile_eq_nil_iff, List.all_eq_true]
  simp only [List.mem_reverse]
  constructor
  · intro h
    -- what is left at the front would begin with a character that is not blank
    have hnone : text.dropWhile isBlank = [] := by
      by_contra hsome
      have hfirst := List.head_dropWhile_not isBlank hsome
      rw [h _ (List.head_mem hsome)] at hfirst
      cases hfirst
    exact List.dropWhile_eq_nil_iff.1 hnone
  · intro h c hc
    exact h c (List.dropWhile_subset isBlank hc)

namespace Trace

/-- A line of text with nothing but blanks on it. -/
def isBlankLine (line : Bytes) : Bool := (Utf8.decode? line).any fun text => text.all isBlank

/-- Number of the lines after the preamble that are not blank. -/
def rowCount (bytes : Bytes) : Nat := ((linesOf bytes).drop 2).countP fun line => !isBlankLine line

theorem rowOf?_eq_none_iff {line : Bytes} :
    rowOf? line = none ↔ Utf8.decode? line = none ∨ isBlankLine line = true := by
  unfold rowOf? isBlankLine
  cases Utf8.decode? line with
  | none => simp
  | some text => simp [Option.filter, trim_eq_nil_iff]

theorem isSome_entryOf? {line : Bytes} {position : Nat} (hposition : 2 ≤ position)
    (h : lineFault? position line = none) : (entryOf? line).isSome = !isBlankLine line := by
  rw [lineFault?, if_neg (Nat.not_lt.2 hposition)] at h
  by_cases htext : Utf8.decode? line = none
  · rw [if_pos htext] at h
    cases h
  · rw [if_neg htext] at h
    cases hrow : rowOf? line with
    | none =>
      have hblank := rowOf?_eq_none_iff.1 hrow
      simp [entryOf?, hrow, hblank.resolve_left htext]
    | some row =>
      have hblank : isBlankLine line = false := by
        rw [← Bool.not_eq_true]
        intro hblank
        rw [rowOf?_eq_none_iff.2 (Or.inr hblank)] at hrow
        cases hrow
      rw [hrow, Option.bind_some] at h
      cases hparse : Row.parse row with
      | error reason => simp [rowFault?, hparse] at h
      | ok event => simp [entryOf?, hrow, hparse, hblank, Except.toOption]

theorem length_events_of_parse {bytes : Bytes} {trace : Trace} (h : parse bytes = .ok trace) :
    trace.events.length = rowCount bytes := by
  have hevents : (parse bytes).map Trace.events = .ok trace.events := by rw [h]; rfl
  obtain ⟨hfault, hpreamble, heq⟩ := map_events_parse_eq_ok_iff.1 hevents
  rw [heq, List.length_map, List.length_filterMap_eq_countP, rowCount]
  apply List.countP_congr
  intro line hline
  obtain ⟨index, hindex⟩ := List.getElem?_of_mem hline
  rw [List.getElem?_drop] at hindex
  have hnone := firstFault?_eq_none_iff.1 hfault (2 + index) line hindex
  rw [isSome_entryOf? (by omega) hnone]

end Trace

/-! ## Sources -/

/-- A trace with the bytes it was read from, the name of its file and its label. -/
structure Source where
  label : String
  name : String
  bytes : Bytes
  trace : Trace
  parsed : Trace.parse bytes = .ok trace

namespace Source

/-- The trace with its events sorted. -/
def classified (cutoffs : Cutoffs) (source : Source) : ClassifiedTrace :=
  .ofEvents source.name cutoffs source.trace.events

def report (cutoffs : Cutoffs) (source : Source) : Report :=
  .ofTrace cutoffs (source.classified cutoffs)

/-- Number of the events of an operation. -/
def count (operation : Operation) (source : Source) : Nat :=
  (eventsOf operation source.trace.events).length

theorem count_add (source : Source) :
    source.count .malloc + source.count .free = Trace.rowCount source.bytes := by
  rw [← Trace.length_events_of_parse source.parsed]
  exact length_eventsOf_add source.trace.events

theorem total_report (cutoffs : Cutoffs) (source : Source) :
    (source.report cutoffs).total.ops = Trace.rowCount source.bytes := by
  rw [← Trace.length_events_of_parse source.parsed]
  exact ClassifiedTrace.totalOps_ofEvents source.name cutoffs source.trace.events

theorem malloc_report (cutoffs : Cutoffs) (source : Source) :
    (source.report cutoffs).malloc.ops = source.count .malloc :=
  ClassifiedTrace.length_latencies_ofEvents source.name cutoffs source.trace.events .malloc

theorem free_report (cutoffs : Cutoffs) (source : Source) :
    (source.report cutoffs).free.ops = source.count .free :=
  ClassifiedTrace.length_latencies_ofEvents source.name cutoffs source.trace.events .free

/-- The traces of a comparison under their labels. -/
def compared (cutoffs : Cutoffs) (sources : List Source) : List (String × ClassifiedTrace) :=
  sources.map fun source => (source.label, source.classified cutoffs)

end Source

/-- The rows of a trace are counted by its report, by the heat map of each operation, and by the
chart of both operations; the events of an operation in each of several traces are counted by
their comparison. No row is lost, and none is counted twice. -/
theorem rows_conserved (cutoffs : Cutoffs) (binning : Binning) :
    (∀ source : Source,
      (source.report cutoffs).total.ops = Trace.rowCount source.bytes ∧
      (source.report cutoffs).malloc.ops + (source.report cutoffs).free.ops =
        (source.report cutoffs).total.ops ∧
      (source.report cutoffs).malloc.ops = source.count .malloc ∧
      (source.report cutoffs).free.ops = source.count .free ∧
      (∀ operation chart,
        Chart.latencyVsSize binning (source.classified cutoffs) operation = .ok chart →
          chart.CountsPairs (source.count operation)) ∧
      ∀ chart, Chart.combined binning (source.classified cutoffs) = .ok chart →
        chart.CountsEach
          [(source.report cutoffs).malloc.ops, (source.report cutoffs).free.ops]) ∧
    ∀ scale token sources operation chart,
      Chart.logComparison scale binning token (Source.compared cutoffs sources) operation =
          .ok chart →
        chart.CountsEach (sources.map (Source.count operation)) := by
  refine ⟨fun source => ⟨source.total_report cutoffs, ?_, source.malloc_report cutoffs,
    source.free_report cutoffs, ?_, ?_⟩, ?_⟩
  · rw [source.total_report, source.malloc_report, source.free_report, source.count_add]
  · intro operation chart h
    exact Chart.countsPairs_latencyVsSize h
  · intro chart h
    rw [source.malloc_report, source.free_report]
    exact Chart.countsEach_combined h
  · intro scale token sources operation chart h
    have hcounts := Chart.countsEach_logComparison h
    rw [Source.compared, List.map_map] at hcounts
    have hsame : sources.map ((fun trace => (trace.2.series operation).latencies.length) ∘
        fun source => (source.label, source.classified cutoffs)) =
        sources.map (Source.count operation) := by
      apply List.map_congr_left
      intro source _
      exact ClassifiedTrace.length_latencies_ofEvents source.name cutoffs source.trace.events
        operation
    rwa [hsame] at hcounts

/-- Three rows with a blank line between them. -/
def sampleSource : Source where
  label := "first"
  name := "run_first.csv"
  bytes := bytesOf "#\n#\nmalloc,1048576,1,500\n \nfree,1048576,1,300\nmalloc,2097152,2,900"
  trace := ⟨[⟨.malloc, 1048576, 1, 500⟩, ⟨.free, 1048576, 1, 300⟩, ⟨.malloc, 2097152, 2, 900⟩], 0⟩
  parsed := by decide +kernel

theorem rows_conserved_sample :
    let binning : Binning := { heatMapBins := 2, logBins := 2 }
    let traces := Source.compared {} [sampleSource, sampleSource]
    (sampleSource.report {}).total.ops = 3 ∧ ∃ heatMap both comparison,
      Chart.latencyVsSize binning (sampleSource.classified {}) .malloc = .ok heatMap ∧
      heatMap.CountsPairs 2 ∧
      Chart.combined binning (sampleSource.classified {}) = .ok both ∧
      both.CountsEach [2, 1] ∧
      Chart.logComparison ⟨id, id⟩ binning ⟨"run"⟩ traces .free = .ok comparison ∧
      comparison.CountsEach [1, 1] := by
  intro binning traces
  have hheatMap : ∃ chart,
      Chart.latencyVsSize binning (sampleSource.classified {}) .malloc = .ok chart :=
    exists_of_isOk (by decide +kernel)
  have hboth : ∃ chart, Chart.combined binning (sampleSource.classified {}) = .ok chart :=
    exists_of_isOk (by decide +kernel)
  have hcomparison : ∃ chart,
      Chart.logComparison ⟨id, id⟩ binning ⟨"run"⟩ traces .free = .ok chart :=
    exists_of_isOk (by decide +kernel)
  obtain ⟨heatMap, hheatMap⟩ := hheatMap
  obtain ⟨both, hboth⟩ := hboth
  obtain ⟨comparison, hcomparison⟩ := hcomparison
  obtain ⟨hsource, htraces⟩ := rows_conserved {} binning
  obtain ⟨htotal, -, -, -, hpairs, heach⟩ := hsource sampleSource
  have hrows : Trace.rowCount sampleSource.bytes = 3 := by decide +kernel
  exact ⟨htotal.trans hrows, heatMap, both, comparison, hheatMap, hpairs _ _ hheatMap, hboth,
    heach _ hboth, hcomparison, htraces _ _ _ _ _ hcomparison⟩

end HeapLatency
