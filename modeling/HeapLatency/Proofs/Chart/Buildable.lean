import HeapLatency.Proofs.Bins.Parameters
import HeapLatency.Proofs.Bins.Scaled
import HeapLatency.Proofs.Chart.Comparisons
import HeapLatency.Proofs.Config

/-!
# Charts that can be built

Which charts a valid configuration builds is decided by the traces alone: a heat map needs a
latency and a size that are not zero, the other charts need events and latencies of their own. A
configuration that is not valid for its bins makes charts of some kind impossible.
-/

namespace HeapLatency

open BinSpec (SparesParameters refuse)

namespace ClassifiedTrace

theorem latencies_ofEvents (name : String) (cutoffs : Cutoffs) (events : List Event)
    (operation : Operation) :
    ((ofEvents name cutoffs events).series operation).latencies =
      (eventsOf operation events).map (·.latency) := by
  rw [series_ofEvents]

end ClassifiedTrace

namespace Chart

variable {scale : LogScale} {binning : Binning}

/-! ## Charts with valid numbers -/

theorem exists_latencyVsSize_iff {name : String} {cutoffs : Cutoffs} {events : List Event}
    {operation : Operation} (htwo : 2 ≤ binning.heatMapBins)
    (hfew : binning.heatMapBins ≤ 1 <<< 32) (hlength : events.length < 1 <<< 64) :
    (∃ chart, latencyVsSize binning (.ofEvents name cutoffs events) operation = .ok chart) ↔
      (∃ event ∈ eventsOf operation events, event.latency ≠ 0) ∧
        ∃ event ∈ eventsOf operation events, event.size ≠ 0 := by
  have hfew : binning.heatMapBins ≤ 1 <<< 52 :=
    Nat.le_trans hfew (Binary64.one_shiftLeft_le (by decide))
  have hlength : (eventsOf operation events).length ≤ 1 <<< 64 :=
    Nat.le_trans (List.length_filter_le _ _) (Nat.le_of_lt hlength)
  rw [← BinSpec.exists_meanScaled_map_iff
      (fun event : Event => Binary64.isSample_ofNat event.latency) hlength htwo hfew,
    ← BinSpec.exists_meanScaled_map_iff
      (fun event : Event => Binary64.isSample_mebibytes event.size) hlength htwo hfew]
  simp only [latencyVsSize_eq_ok_iff, ClassifiedTrace.series_ofEvents, samplesOf, List.map_map,
    Function.comp_def]
  constructor
  · rintro ⟨chart, xBins, yBins, hxBins, hyBins, -⟩
    exact ⟨⟨xBins, hxBins⟩, yBins, hyBins⟩
  · rintro ⟨⟨xBins, hxBins⟩, yBins, hyBins⟩
    exact ⟨_, xBins, yBins, hxBins, hyBins, rfl⟩

/-- Densities of both operations take events of both, and one that is not done in no time. -/
theorem combined_ne_ok {trace : ClassifiedTrace} {chart : Chart}
    (h : (∃ operation, (trace.series operation).latencies = []) ∨
      ∀ operation, ∀ cycles ∈ (trace.series operation).latencies, cycles = 0) :
    combined binning trace ≠ .ok chart := by
  intro hchart
  obtain ⟨xBins, hbins, -⟩ := combined_eq_ok_iff.1 hchart
  obtain ⟨upper, base, range, step, count, shared, hupper, -, -⟩ := BinSpec.exists_shared hbins
  rcases h with ⟨operation, hnone⟩ | hzero
  · -- the first series without a mean is refused
    obtain ⟨hsome, -⟩ := BinSpec.doubleMean_eq_ok_iff.1 hupper
    rw [List.forall_mem_cons, List.forall_mem_singleton] at hsome
    cases operation with
    | malloc => exact hsome.1 (congrArg samplesOf hnone)
    | free => exact hsome.2 (congrArg samplesOf hnone)
  · -- both means are zero, and a range of zero has no edges
    have hdouble (operation : Operation) (mean : Binary64)
        (hmean : Binary64.mean? (samplesOf (trace.series operation).latencies) = some mean) :
        Binary64.UpTo 0 (mean * 2) :=
      Binary64.upTo_zero_mean (List.forall_mem_map.2 fun cycles _ => (Binary64.isSample_ofNat _).1)
        (List.forall_mem_map.2 fun cycles hmem hpos =>
          (Binary64.isSample_ofNat cycles).2.1 hpos (hzero operation cycles hmem))
        hmean (by decide)
    have hupTo : Binary64.UpTo 0 upper :=
      BinSpec.upTo_of_doubleMean (Binary64.upTo_ofExact_zero Nat.one_pos false)
        (List.forall_mem_cons.2 ⟨hdouble .malloc, List.forall_mem_singleton.2 (hdouble .free)⟩)
        hupper
    obtain @⟨negative, units, held, positive, hle⟩ := hupTo
    exact shared.not_upTo (.finite positive (Nat.le_trans hle (Nat.zero_le _)))

/-- A logarithmic comparison takes a latency to begin at, and none that is zero. -/
theorem logComparison_ne_ok {token : RunToken} {traces : List (String × ClassifiedTrace)}
    {operation : Operation} {chart : Chart}
    (h : (∀ trace ∈ traces, (trace.2.series operation).latencies = []) ∨
      ∃ trace ∈ traces, 0 ∈ (trace.2.series operation).latencies) :
    logComparison scale binning token traces operation ≠ .ok chart := by
  intro hchart
  obtain ⟨xBins, hbins, -⟩ := logComparison_eq_ok_iff.1 hchart
  rw [map_values_comparedSeries] at hbins
  rcases h with hnone | ⟨trace, htrace, hzero⟩
  · obtain ⟨least, greatest, hextremes, -⟩ := (BinSpec.edges_of_logSpan hbins).2.2
    have hmem := hextremes.least_mem
    rw [flatten_map_samplesOf] at hmem
    obtain ⟨cycles, hcycles, -⟩ := mem_samplesOf hmem
    obtain ⟨latencies, hlatencies, hcycles⟩ := List.mem_flatten.1 hcycles
    obtain ⟨trace, htrace, rfl⟩ := List.mem_map.1 hlatencies
    rw [hnone trace htrace] at hcycles
    cases hcycles
  · exact absurd (pos_of_logSpan hbins (mem_flatten_comparedLatencies htrace hzero)) (by decide)

/-! ## Faults of numbers -/

theorem sparesParameters_latencyVsSize (htwo : 2 ≤ binning.heatMapBins) (trace : ClassifiedTrace)
    (operation : Operation) : SparesParameters (latencyVsSize binning trace operation) :=
  (BinSpec.sparesParameters_meanScaled htwo).bind fun _ =>
    (BinSpec.sparesParameters_meanScaled htwo).bind fun _ => BinSpec.sparesParameters_ok _

theorem sparesParameters_combined (htwo : 2 ≤ binning.combinedBins)
    (hbase : Config.isPositive binning.roundingBase = true) (trace : ClassifiedTrace) :
    SparesParameters (combined binning trace) :=
  (BinSpec.sparesParameters_sharedRange htwo hbase).bind fun _ => BinSpec.sparesParameters_ok _

theorem sparesParameters_logComparison (hbins : 1 ≤ binning.logBins) (token : RunToken)
    (traces : List (String × ClassifiedTrace)) (operation : Operation) :
    SparesParameters (logComparison scale binning token traces operation) :=
  (BinSpec.sparesParameters_logSpan scale hbins).bind fun _ => BinSpec.sparesParameters_ok _

/-- For one fault there are no bins for charts of a kind, whatever the samples, and no such chart
of any trace. -/
def Unusable (scale : LogScale) (binning : Binning) : ChartKind → RangeFault → Prop
  | .latencyVsSize, fault =>
    (∀ samples, BinSpec.meanScaled samples binning.heatMapBins = refuse fault) ∧
      ∀ trace operation, latencyVsSize binning trace operation = refuse fault
  | .combined, fault =>
    (∀ series, BinSpec.sharedRange series binning.combinedBins binning.roundingBase =
      refuse fault) ∧ ∀ trace, combined binning trace = refuse fault
  | .logComparison, fault =>
    (∀ series, BinSpec.dataSpan series binning.logBins = refuse fault ∧
      BinSpec.logSpan scale series binning.logBins = refuse fault) ∧
      ∀ token traces operation,
        logComparison scale binning token traces operation = refuse fault

theorem unusable_of_rejected {kind : ChartKind} {fault : RangeFault}
    (h : binning.Rejected kind fault) : Unusable scale binning kind fault := by
  cases h with
  | heatMapBins h =>
    refine ⟨fun samples => BinSpec.meanScaled_of_few samples h, fun trace operation => ?_⟩
    rw [latencyVsSize, BinSpec.meanScaled_of_few _ h, BinSpec.refuse_bind]
  | combinedBins h =>
    refine ⟨fun series => BinSpec.sharedRange_of_few series _ h, fun trace => ?_⟩
    rw [combined, BinSpec.sharedRange_of_few _ _ h, BinSpec.refuse_bind]
  | roundingBase htwo h =>
    refine ⟨fun series => BinSpec.sharedRange_of_base series htwo h, fun trace => ?_⟩
    rw [combined, BinSpec.sharedRange_of_base _ htwo h, BinSpec.refuse_bind]
  | logBins h =>
    rw [Nat.lt_one_iff] at h
    rw [Unusable, h]
    refine ⟨fun series => ⟨BinSpec.dataSpan_zero series, BinSpec.logSpan_zero scale series⟩,
      fun token traces operation => ?_⟩
    rw [logComparison, h, BinSpec.logSpan_zero, BinSpec.refuse_bind]

/-- Only the traces decide which charts there are. No trace has more events than a machine word can
count. -/
structure OnlyData (scale : LogScale) (binning : Binning) : Prop where
  heatMap_iff : binning.heatMapBins ≤ 1 <<< 32 → ∀ name cutoffs events operation,
    events.length < 1 <<< 64 →
    ((∃ chart, latencyVsSize binning (.ofEvents name cutoffs events) operation = .ok chart) ↔
      (∃ event ∈ eventsOf operation events, event.latency ≠ 0) ∧
        ∃ event ∈ eventsOf operation events, event.size ≠ 0)
  combined_error : ∀ name cutoffs events,
    ((∃ operation, eventsOf operation events = []) ∨ ∀ event ∈ events, event.latency = 0) →
    ∃ error, combined binning (.ofEvents name cutoffs events) = .error error
  comparison_error : ∀ token traces operation,
    ((∀ trace ∈ traces, (trace.2.series operation).latencies = []) ∨
      ∃ trace ∈ traces, 0 ∈ (trace.2.series operation).latencies) →
    ∃ error, logComparison scale binning token traces operation = .error error
  heatMap_spares : ∀ trace operation, SparesParameters (latencyVsSize binning trace operation)
  combined_spares : ∀ trace, SparesParameters (combined binning trace)
  comparison_spares : ∀ token traces operation,
    SparesParameters (logComparison scale binning token traces operation)

theorem onlyData_of_validate (h : binning.validate = .ok ()) : OnlyData scale binning := by
  obtain ⟨hheatMap, hcombined, hlog, hbase⟩ := Binning.validate_eq_ok_iff.1 h
  refine ⟨fun hfew name cutoffs events operation => exists_latencyVsSize_iff hheatMap hfew,
    fun name cutoffs events hevents => exists_error_of_ne_ok fun chart => combined_ne_ok ?_,
    fun token traces operation htraces =>
      exists_error_of_ne_ok fun chart => logComparison_ne_ok htraces,
    sparesParameters_latencyVsSize hheatMap, sparesParameters_combined hcombined hbase,
    sparesParameters_logComparison hlog⟩
  simp only [ClassifiedTrace.latencies_ofEvents, List.map_eq_nil_iff]
  refine hevents.imp_right fun hzero operation => ?_
  exact List.forall_mem_map.2 fun event hmem => hzero event (List.mem_of_mem_filter hmem)

/-- With a valid configuration only the traces can make a chart impossible. With one that is not
valid for its bins some number is rejected, and each that is makes its charts impossible. -/
theorem onlyData_or_unusable (scale : LogScale) (config : Config) :
    (config.validate = .ok () → OnlyData scale config.binning) ∧
    (config.binning.validate ≠ .ok () → ∃ kind fault, config.binning.Rejected kind fault) ∧
    ∀ kind fault, config.binning.Rejected kind fault →
      Unusable scale config.binning kind fault := by
  refine ⟨fun h => ?_, Binning.exists_rejected_iff.2, fun kind fault => unusable_of_rejected⟩
  obtain ⟨-, -, hbinning⟩ := bind_eq_ok.1 h
  exact onlyData_of_validate hbinning

/-- The defaults, with which one latency and one size that are not zero make a heat map even where
they belong to different events, and a base of zero. -/
theorem onlyData_or_unusable_sample :
    OnlyData BinSpec.sampleScale {} ∧
    (∃ chart, latencyVsSize {} (.ofEvents "run" {} [⟨.malloc, 0, 0, 500⟩, ⟨.malloc, 64, 1, 0⟩])
      .malloc = .ok chart) ∧
    (∃ kind fault, Binning.Rejected { roundingBase := 0 } kind fault) ∧
    Unusable BinSpec.sampleScale { roundingBase := 0 } .combined (.roundingBase 0) := by
  obtain ⟨hvalid, -, -⟩ := onlyData_or_unusable BinSpec.sampleScale {}
  obtain ⟨-, hinvalid, hrejected⟩ :=
    onlyData_or_unusable BinSpec.sampleScale { binning := { roundingBase := 0 } }
  have hdata := hvalid (by decide +kernel)
  refine ⟨hdata, ?_, hinvalid (by decide +kernel),
    hrejected _ _ (.roundingBase (by decide) (by decide +kernel))⟩
  exact (hdata.heatMap_iff (by decide +kernel) _ _ _ _ (by decide +kernel)).2
    ⟨⟨⟨.malloc, 0, 0, 500⟩, by decide, by decide⟩, ⟨.malloc, 64, 1, 0⟩, by decide, by decide⟩

end Chart

end HeapLatency
