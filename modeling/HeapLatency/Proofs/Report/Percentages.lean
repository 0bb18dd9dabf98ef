import HeapLatency.Proofs.Number.Value
import HeapLatency.Proofs.Trace.Partition
import HeapLatency.Report

/-!
# Percentages

A percentage of fewer than `2 ^ 46` operations is rounded once, from the exact quotient. So it keeps
what is true of quotients: it is at most 100, it is zero or 100 only where the quotient is, and that
of all operations lies between those of two parts of them.
-/

namespace HeapLatency

open Binary64

/-! ## One percentage -/

theorem percentOf_eq_none_iff {spikes count : Nat} : percentOf spikes count = none ↔ count = 0 := by
  rw [percentOf]
  split_ifs with h
  · exact iff_of_true rfl h
  · exact iff_of_false nofun h

/-- A percentage in units of the format. -/
def percentUnits (spikes count : Nat) : Nat := roundMagnitude (100 * spikes * unitsPerOne) count

section Percent

variable {spikes count : Nat}

theorem held_hundred : Held (100 * unitsPerOne) := held_whole (by decide)

theorem percentUnits_le (hcount : 0 < count) (h : spikes ≤ count) :
    percentUnits spikes count ≤ 100 * unitsPerOne := by
  refine roundMagnitude_le hcount held_hundred.aligned ?_
  calc 100 * spikes * unitsPerOne = 100 * unitsPerOne * spikes := by ring
    _ ≤ 100 * unitsPerOne * count := Nat.mul_le_mul_left _ h

theorem percentOf_eq (hcount : 0 < count) (hfew : count < 2 ^ 46) (h : spikes ≤ count) :
    ∃ held, percentOf spikes count = some (.finite false (percentUnits spikes count) held) := by
  have h46 : (2 : Nat) ^ 46 = 70368744177664 := by norm_num
  have h53 : (1 <<< 53 : Nat) = 9007199254740992 := by decide
  have hspikes : spikes ≤ 1 <<< 53 := by omega
  have hproduct : 100 * spikes ≤ 1 <<< 53 := by omega
  have hdividend : (100 * ofNat spikes : Binary64) =
      .finite false (100 * spikes * unitsPerOne) (held_whole hproduct) := by
    rw [ofNat_eq hspikes, ← ofExact_of_held (held_whole hproduct), Nat.mul_assoc]
    exact ofNat_mul (by decide) (held_whole hspikes)
  have hlt : percentUnits spikes count < overflow :=
    Nat.lt_of_le_of_lt (percentUnits_le hcount h) held_hundred.bounded
  refine ⟨⟨aligned_roundMagnitude _ _, hlt⟩, ?_⟩
  rw [percentOf, if_neg hcount.ne', hdividend, div_ofNat hcount (by omega)]
  exact congrArg some (ofExact_of_lt hlt)

theorem percentUnits_eq_zero_iff (hcount : 0 < count) (hfew : count < 2 ^ 46) :
    percentUnits spikes count = 0 ↔ spikes = 0 := by
  constructor
  · intro hzero
    by_contra hsome
    -- a spike is more than one unit, and so is not rounded to nothing
    have hunits : count ≤ unitsPerOne := by
      have hpower : 1 <<< 46 ≤ unitsPerOne := one_shiftLeft_le (by decide)
      rw [Nat.one_shiftLeft] at hpower
      omega
    have hone : 1 ≤ percentUnits spikes count := by
      refine le_roundMagnitude hcount (by decide) ?_
      rw [Nat.one_mul]
      exact Nat.le_trans hunits (Nat.le_mul_of_pos_left _ (by omega))
    omega
  · rintro rfl
    have hzero : 100 * 0 * unitsPerOne ≤ 0 * count := by simp
    exact Nat.le_zero.1 (roundMagnitude_le hcount (by decide) hzero)

theorem percentUnits_lt_hundred (hfew : count < 2 ^ 46) (h : spikes < count) :
    percentUnits spikes count < 100 * unitsPerOne := by
  -- a number before 100 is still above the quotient of one spike less
  have held : Held ((100 * 2 ^ 46 - 1) <<< 1028) := held_shiftLeft (by decide) (by decide)
  have hscale (m : Nat) : m <<< 1028 = m * 1 <<< 1028 := by
    rw [Nat.shiftLeft_eq, Nat.one_shiftLeft]
  have hunits : unitsPerOne = 2 ^ 46 * 1 <<< 1028 := by
    rw [← Nat.one_shiftLeft, one_shiftLeft_mul]
    rfl
  have hpos : 0 < 1 <<< 1028 := by
    rw [Nat.one_shiftLeft]
    exact Nat.two_pow_pos 1028
  have hbelow : percentUnits spikes count ≤ (100 * 2 ^ 46 - 1) <<< 1028 := by
    refine roundMagnitude_le (Nat.zero_lt_of_lt h) held.aligned ?_
    rw [hscale, hunits]
    calc 100 * spikes * (2 ^ 46 * 1 <<< 1028) = 100 * spikes * 2 ^ 46 * 1 <<< 1028 := by ring
      _ ≤ (100 * 2 ^ 46 - 1) * count * 1 <<< 1028 := Nat.mul_le_mul_right _ (by omega)
      _ = (100 * 2 ^ 46 - 1) * 1 <<< 1028 * count := by ring
  refine Nat.lt_of_le_of_lt hbelow ?_
  rw [hscale, hunits, ← Nat.mul_assoc]
  exact Nat.mul_lt_mul_of_pos_right (by decide) hpos

theorem percentUnits_eq_hundred_iff (hcount : 0 < count) (hfew : count < 2 ^ 46)
    (h : spikes ≤ count) : percentUnits spikes count = 100 * unitsPerOne ↔ spikes = count := by
  constructor
  · intro hhundred
    by_contra hne
    exact (percentUnits_lt_hundred hfew (Nat.lt_of_le_of_ne h hne)).ne hhundred
  · rintro rfl
    rw [percentUnits, Nat.mul_right_comm]
    exact roundMagnitude_of_aligned hcount held_hundred.aligned

theorem percentUnits_le_percentUnits {others total : Nat} (hcount : 0 < count) (htotal : 0 < total)
    (h : spikes * total ≤ others * count) :
    percentUnits spikes count ≤ percentUnits others total := by
  refine roundMagnitude_le_roundMagnitude hcount htotal ?_
  calc 100 * spikes * unitsPerOne * total = 100 * unitsPerOne * (spikes * total) := by ring
    _ ≤ 100 * unitsPerOne * (others * count) := Nat.mul_le_mul_left _ h
    _ = 100 * others * unitsPerOne * count := by ring

/-- The quotient of two sums lies between the quotients of their parts. -/
theorem percentUnits_mediant {others total : Nat} (hcount : 0 < count) (htotal : 0 < total)
    (h : spikes * total ≤ others * count) :
    percentUnits spikes count ≤ percentUnits (spikes + others) (count + total) ∧
      percentUnits (spikes + others) (count + total) ≤ percentUnits others total := by
  have hsum : 0 < count + total := Nat.add_pos_left hcount total
  constructor
  · refine percentUnits_le_percentUnits hcount hsum ?_
    rw [Nat.mul_add, Nat.add_mul]
    exact Nat.add_le_add_left h _
  · refine percentUnits_le_percentUnits hsum htotal ?_
    rw [Nat.mul_add, Nat.add_mul]
    exact Nat.add_le_add_right h _

theorem percentUnits_add_between (spikes others : Nat) {total : Nat} (hcount : 0 < count)
    (htotal : 0 < total) :
    min (percentUnits spikes count) (percentUnits others total) ≤
        percentUnits (spikes + others) (count + total) ∧
      percentUnits (spikes + others) (count + total) ≤
        max (percentUnits spikes count) (percentUnits others total) := by
  rcases Nat.le_total (spikes * total) (others * count) with hle | hle
  · obtain ⟨hlow, hhigh⟩ := percentUnits_mediant hcount htotal hle
    exact ⟨min_le_of_left_le hlow, le_max_of_le_right hhigh⟩
  · obtain ⟨hlow, hhigh⟩ := percentUnits_mediant htotal hcount hle
    rw [Nat.add_comm others, Nat.add_comm total] at hlow hhigh
    exact ⟨min_le_of_right_le hlow, le_max_of_le_left hhigh⟩

end Percent

/-! ## Tallies -/

namespace Tally

/-- The number that a percentage stands for. -/
def percentValue? (tally : Tally) : Option ℚ := tally.percent.bind value?

/-- A tally of events, of which those that `spike` tells are the spikes. Its percentage is absent
only without events, and otherwise a number from 0 to 100 that is 0 or 100 only where no event or
every event is a spike. -/
structure TalliesEach (spike : Event → Bool) (events : List Event) (tally : Tally) : Prop where
  ops : tally.ops = events.length
  spikes : tally.spikes = events.countP spike
  undefined : tally.percent = none ↔ tally.ops = 0
  defined : tally.ops ≠ 0 → ∃ value, tally.percentValue? = some value ∧ 0 ≤ value ∧ value ≤ 100 ∧
    (value = 0 ↔ tally.spikes = 0) ∧ (value = 100 ↔ ∀ event ∈ events, spike event = true)

theorem percentValue?_ofCounts {ops spikes : Nat} (hops : 0 < ops) (hfew : ops < 2 ^ 46)
    (h : spikes ≤ ops) :
    (ofCounts ops spikes).percentValue? = some ((percentUnits spikes ops : ℚ) / unitsPerOne) := by
  obtain ⟨held, heq⟩ := percentOf_eq hops hfew h
  rw [percentValue?, ofCounts, heq, Option.bind_some, value?_finite]
  rfl

theorem talliesEach_ofCounts {spike : Event → Bool} {events : List Event} {ops spikes : Nat}
    (hops : ops = events.length) (hspikes : spikes = events.countP spike) (hfew : ops < 2 ^ 46) :
    (ofCounts ops spikes).TalliesEach spike events where
  ops := hops
  spikes := hspikes
  undefined := percentOf_eq_none_iff
  defined := by
    intro hsome
    have hpos : 0 < ops := Nat.pos_of_ne_zero hsome
    have hle : spikes ≤ ops := by
      rw [hops, hspikes]
      exact List.countP_le_length
    have hunits := unitsPerOne_cast_pos
    refine ⟨_, percentValue?_ofCounts hpos hfew hle,
      div_nonneg (Nat.cast_nonneg _) (Nat.cast_nonneg _), ?_, ?_, ?_⟩
    · rw [div_le_iff₀ hunits]
      exact_mod_cast percentUnits_le hpos hle
    · rw [div_eq_zero_iff, or_iff_left hunits.ne', Nat.cast_eq_zero]
      exact percentUnits_eq_zero_iff hpos hfew
    · have hcast : ((percentUnits spikes ops : ℚ) = 100 * unitsPerOne) ↔
          percentUnits spikes ops = 100 * unitsPerOne := by
        exact_mod_cast Iff.rfl
      rw [div_eq_iff hunits.ne', hcast, percentUnits_eq_hundred_iff hpos hfew hle, hops, hspikes,
        List.countP_eq_length]

theorem TalliesEach.spikes_le {spike : Event → Bool} {events : List Event} {tally : Tally}
    (h : tally.TalliesEach spike events) : tally.spikes ≤ tally.ops := by
  rw [h.ops, h.spikes]
  exact List.countP_le_length

theorem pos_of_percentValue? {ops spikes : Nat} {value : ℚ}
    (h : (ofCounts ops spikes).percentValue? = some value) : 0 < ops := by
  refine Nat.pos_of_ne_zero fun hnone => ?_
  have hpercent : (ofCounts ops spikes).percent = none := percentOf_eq_none_iff.2 hnone
  rw [percentValue?, hpercent] at h
  cases h

theorem percentValue?_between {ops spikes ops' spikes' : Nat} {all first second : ℚ}
    (hfew : ops + ops' < 2 ^ 46) (hspikes : spikes ≤ ops) (hspikes' : spikes' ≤ ops')
    (hall : (ofCounts (ops + ops') (spikes + spikes')).percentValue? = some all)
    (hfirst : (ofCounts ops spikes).percentValue? = some first)
    (hsecond : (ofCounts ops' spikes').percentValue? = some second) :
    min first second ≤ all ∧ all ≤ max first second := by
  have hops := pos_of_percentValue? hfirst
  have hops' := pos_of_percentValue? hsecond
  rw [percentValue?_ofCounts (Nat.add_pos_left hops ops') hfew
    (Nat.add_le_add hspikes hspikes')] at hall
  rw [percentValue?_ofCounts hops (by omega) hspikes] at hfirst
  rw [percentValue?_ofCounts hops' (by omega) hspikes'] at hsecond
  obtain rfl := Option.some.inj hall
  obtain rfl := Option.some.inj hfirst
  obtain rfl := Option.some.inj hsecond
  have hunits := unitsPerOne_cast_pos
  obtain ⟨hlow, hhigh⟩ := percentUnits_add_between spikes spikes' hops hops'
  rw [min_le_iff, le_max_iff]
  simp only [div_le_div_iff_of_pos_right hunits, Nat.cast_le]
  exact ⟨min_le_iff.1 hlow, le_max_iff.1 hhigh⟩

end Tally

/-! ## Reports -/

/-- The latency of an event is above the cutoff of its operation. -/
def isSpikeOf (cutoffs : Cutoffs) (event : Event) : Bool :=
  isSpike (cutoffs.ofOperation event.operation) event.latency

namespace ClassifiedTrace

theorem spikes_ofEvents (name : String) (cutoffs : Cutoffs) (events : List Event)
    (operation : Operation) :
    ((ofEvents name cutoffs events).series operation).spikes =
      (eventsOf operation events).countP (isSpikeOf cutoffs) := by
  rw [series_ofEvents, countSpikes, List.countP_map]
  refine List.countP_congr fun event hevent => ?_
  have hoperation : event.operation = operation := of_decide_eq_true (List.mem_filter.1 hevent).2
  rw [isSpikeOf, hoperation]
  rfl

theorem spikes_add_spikes (name : String) (cutoffs : Cutoffs) (events : List Event) :
    ((ofEvents name cutoffs events).series .malloc).spikes +
        ((ofEvents name cutoffs events).series .free).spikes =
      events.countP (isSpikeOf cutoffs) := by
  rw [spikes_ofEvents, spikes_ofEvents, ← List.countP_append]
  exact (perm_eventsOf events).countP_eq _

theorem talliesEach_series (name : String) (cutoffs : Cutoffs) {events : List Event}
    (h : events.length < 2 ^ 46) (operation : Operation) :
    (Tally.ofCounts ((ofEvents name cutoffs events).series operation).latencies.length
      ((ofEvents name cutoffs events).series operation).spikes).TalliesEach (isSpikeOf cutoffs)
      (eventsOf operation events) := by
  have hlength := length_latencies_ofEvents name cutoffs events operation
  refine Tally.talliesEach_ofCounts hlength (spikes_ofEvents name cutoffs events operation) ?_
  rw [hlength]
  exact Nat.lt_of_le_of_lt (List.length_filter_le _ events) h

end ClassifiedTrace

namespace Report

/-- One warning for each percentage of no operations, in the order of the report. -/
theorem warnings_eq (report : Report) :
    report.warnings = (report.scopes.filter fun scope => scope.2.ops = 0).map fun scope =>
      ⟨.warn,
        report.name ++ ": " ++ ("Percentage of " ++ scope.1 ++ " is undefined: no events")⟩ := by
  rw [← List.filterMap_eq_map, List.filterMap_filter, warnings]
  refine List.filterMap_congr fun scope _ => ?_
  by_cases hnone : scope.2.ops = 0
  · have hpercent : percentOf scope.2.spikes scope.2.ops = none := percentOf_eq_none_iff.2 hnone
    rw [if_pos (decide_eq_true hnone)]
    simp only [spikePercent, hpercent]
    rfl
  · obtain ⟨percent, hpercent⟩ :=
      Option.ne_none_iff_exists'.1 (mt percentOf_eq_none_iff.1 hnone :
        percentOf scope.2.spikes scope.2.ops ≠ none)
    rw [if_neg (by simpa using hnone)]
    simp only [spikePercent, hpercent]

end Report

/-- The report of fewer than `2 ^ 46` events tallies all of them and those of each operation. What
is undefined is warned of once; what is defined is a percentage, and that of all events lies between
those of the two operations. -/
theorem report_consistent (name : String) (cutoffs : Cutoffs) {events : List Event}
    (h : events.length < 2 ^ 46) :
    let report := Report.ofTrace cutoffs (ClassifiedTrace.ofEvents name cutoffs events)
    report.total.TalliesEach (isSpikeOf cutoffs) events ∧
    report.malloc.TalliesEach (isSpikeOf cutoffs) (eventsOf .malloc events) ∧
    report.free.TalliesEach (isSpikeOf cutoffs) (eventsOf .free events) ∧
    report.total.ops = report.malloc.ops + report.free.ops ∧
    report.total.spikes = report.malloc.spikes + report.free.spikes ∧
    report.warnings = (report.scopes.filter fun scope => scope.2.ops = 0).map (fun scope =>
      ⟨.warn, name ++ ": " ++ ("Percentage of " ++ scope.1 ++ " is undefined: no events")⟩) ∧
    ∀ total malloc free, report.total.percentValue? = some total →
      report.malloc.percentValue? = some malloc → report.free.percentValue? = some free →
      min malloc free ≤ total ∧ total ≤ max malloc free := by
  intro report
  have hmalloc : report.malloc.TalliesEach (isSpikeOf cutoffs) (eventsOf .malloc events) :=
    ClassifiedTrace.talliesEach_series name cutoffs h .malloc
  have hfree : report.free.TalliesEach (isSpikeOf cutoffs) (eventsOf .free events) :=
    ClassifiedTrace.talliesEach_series name cutoffs h .free
  have hops : report.malloc.ops + report.free.ops = events.length :=
    ClassifiedTrace.totalOps_ofEvents name cutoffs events
  have hfew : report.malloc.ops + report.free.ops < 2 ^ 46 := by rwa [hops]
  refine ⟨?_, hmalloc, hfree, rfl, rfl, ?_, ?_⟩
  · exact Tally.talliesEach_ofCounts hops (ClassifiedTrace.spikes_add_spikes name cutoffs events)
      hfew
  · rw [Report.warnings_eq]
    rw [show report.name = name from ClassifiedTrace.name_ofEvents name cutoffs events]
  · intro total malloc free
    exact Tally.percentValue?_between hfew hmalloc.spikes_le hfree.spikes_le

/-- One of three allocations is slow, and nothing is freed. -/
theorem report_consistent_sample :
    let events := [⟨.malloc, 1, 0, 10⟩, ⟨.malloc, 1, 1, 3000⟩, ⟨.malloc, 1, 2, 20⟩]
    let report := Report.ofTrace {} (ClassifiedTrace.ofEvents "run" {} events)
    events.length < 2 ^ 46 ∧
    report.malloc.TalliesEach (isSpikeOf {}) events ∧ report.malloc.spikes = 1 ∧
    report.warnings =
      [⟨.warn, "run: Percentage of free spikes is undefined: no events"⟩] := by
  intro events report
  have h : events.length < 2 ^ 46 := by decide
  obtain ⟨-, hmalloc, -, -, -, hwarnings, -⟩ := report_consistent "run" {} h
  refine ⟨h, hmalloc, by decide +kernel, ?_⟩
  rw [hwarnings]
  decide +kernel

end HeapLatency
