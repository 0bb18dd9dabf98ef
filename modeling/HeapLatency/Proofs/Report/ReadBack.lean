import HeapLatency.Proofs.Files.Changes
import HeapLatency.Proofs.Report.Documents
import HeapLatency.Proofs.Trace.Partition

/-!
# Statistics files

A statistics file that was written can be read if JSON can hold the cutoffs. Texts and whole
numbers come back as they were. A real number comes back if the format holds the digits and the
power of ten that stand for it; otherwise it may come back as another number.
-/

namespace HeapLatency

namespace Binary64

/-- The digits that stand for the number have 53 bits, and the power of ten is at most 22. -/
def Short : Binary64 → Prop
  | .finite _ units _ =>
    (JsonScan.dataDecimal units).digits ≤ 1 <<< 53 ∧
      (JsonScan.dataDecimal units).exponent.natAbs ≤ 22
  | _ => True

instance : DecidablePred Short
  | .finite _ _ _ => inferInstanceAs (Decidable (_ ∧ _))
  | .infinite _ => .isTrue trivial
  | .nan => .isTrue trivial

theorem reread_of_short {x : Binary64} (h : x.Short) : x.reread = x := by
  cases x with
  | infinite negative => rfl
  | nan => rfl
  | finite negative units held =>
    apply reread_eq
    intro hpos
    rwa [Short, JsonScan.dataDecimal, if_neg hpos.ne'] at h

/-! ## Percentages -/

theorem natCast_le_largest {n : Nat} (h : n ≤ maxWord) : n * unitsPerOne ≤ largest :=
  Nat.le_trans (Nat.mul_le_mul_right unitsPerOne (Nat.le_trans h (by decide)))
    (pow_ten_le_largest (show 20 ≤ JsonScan.maxPower by decide))

theorem isFinite_percentOf {spikes count : Nat} (hspikes : spikes ≤ maxWord)
    (hcount : count ≤ maxWord) {percent : Binary64} (h : percent ∈ percentOf spikes count) :
    percent.isFinite = true := by
  rw [percentOf] at h
  split_ifs at h with hzero
  · cases h
  · obtain rfl := Option.some.inj h
    have held : Held ((1 : Nat) <<< 1138) := held_shiftLeft (by decide) (by decide)
    have hwords : spikes * unitsPerOne ≤ (1 <<< 1138) * 1 := by
      rw [Nat.mul_one]
      exact word_units_le (Nat.le_trans hspikes (by decide))
    obtain ⟨a, aheld, heq, hle⟩ := ofExact_le false held Nat.one_pos hwords
    have hhundred : 100 * a ≤ largest * 1 := by
      have hmost : 100 * (1 <<< 1138) ≤ largest := by decide +kernel
      rw [Nat.mul_one]
      exact Nat.le_trans (Nat.mul_le_mul_left 100 hle) hmost
    refine isFinite_div_ofNat ?_ (Nat.pos_of_ne_zero hzero) (natCast_le_largest hcount)
    show (ofNat 100 * ofNat spikes).isFinite = true
    rw [show ofNat spikes = .finite false a aheld from heq, ofNat_mul (by decide)]
    exact isFinite_of_ofExact Nat.one_pos hhundred

end Binary64

/-! ## Reports of traces -/

theorem Tally.sound_ofCounts {ops spikes : Nat} (hops : ops ≤ maxWord)
    (hspikes : spikes ≤ maxWord) :
    (Tally.ofCounts ops spikes).Sound :=
  ⟨hops, hspikes, fun _ => Binary64.isFinite_percentOf hspikes hops⟩

theorem Tally.reread_eq {tally : Tally} (h : ∀ x ∈ tally.percent, x.reread = x) :
    tally.reread = tally := by
  obtain ⟨ops, spikes, percent⟩ := tally
  cases percent with
  | none => rfl
  | some x => rw [reread, Option.map_some, h x rfl]

namespace Report

theorem sound_ofTrace (cutoffs : Cutoffs) {trace : ClassifiedTrace}
    (hops : trace.totalOps ≤ maxWord)
    (hspikes : trace.malloc.spikes + trace.free.spikes ≤ maxWord) :
    (ofTrace cutoffs trace).Sound := by
  rw [ClassifiedTrace.totalOps] at hops
  exact ⟨Tally.sound_ofCounts hops hspikes, Tally.sound_ofCounts (by omega) (by omega),
    Tally.sound_ofCounts (by omega) (by omega)⟩

/-- The real numbers of a report. -/
def reals (report : Report) : List Binary64 :=
  [report.cutoffs.malloc, report.cutoffs.free] ++ report.total.percent.toList ++
    report.malloc.percent.toList ++ report.free.percent.toList

theorem reread_eq {report : Report} (h : ∀ x ∈ report.reals, x.reread = x) :
    report.reread = report := by
  simp only [reals, List.mem_append, List.mem_cons, List.not_mem_nil, or_false,
    Option.mem_toList] at h
  have hmalloc := h report.cutoffs.malloc (by simp only [true_or])
  have hfree := h report.cutoffs.free (by simp only [or_true, true_or])
  have htotals : report.total.reread = report.total :=
    Tally.reread_eq fun x hx => h x (.inl (.inl (.inr hx)))
  have hmallocs : report.malloc.reread = report.malloc :=
    Tally.reread_eq fun x hx => h x (.inl (.inr hx))
  have hfrees : report.free.reread = report.free := Tally.reread_eq fun x hx => h x (.inr hx)
  rw [reread, hmalloc, hfree, htotals, hmallocs, hfrees]

end Report

/-! ## Files -/

namespace FileTree

variable {tree : FileTree} {time : String} {path : Path} {reports : List Report}

theorem readStats_of_read (hsound : ∀ report ∈ reports, report.Sound)
    (h : tree.read path = .ok (bytesOf (StatsDocument.ofReports time reports).toJson.pretty))
    {document : StatsDocument} :
    tree.readStats path = .ok document ↔
      ∃ read, reports.mapM Report.readBack = .ok read ∧ document = .ofReports time read := by
  rw [readStats, h, mapError_eq_ok, StatsDocument.parse_toJson hsound, map_eq_ok]
  rfl

theorem readStats_eq_ok {after : FileTree} (hsound : ∀ report ∈ reports, report.Sound)
    (h : tree.writeStats time path reports = (.ok (), after)) {document : StatsDocument} :
    after.readStats path = .ok document ↔
      ∃ read, reports.mapM Report.readBack = .ok read ∧ document = .ofReports time read := by
  rw [writeStats] at h
  rcases tree.writeOutput_outcome path
    (bytesOf (StatsDocument.ofReports time reports).toJson.pretty) with
      ⟨cause, left, hfailed, -⟩ | ⟨location, left, hdone, hwritten⟩
  · rw [hfailed] at h
    cases h
  · rw [hdone] at h
    cases h
    exact readStats_of_read hsound hwritten.read

end FileTree

/-- A statistics file that was written can be read if there are no reports or both cutoffs are
finite. The document has the texts and the whole numbers that were written, and each real number
as it is read from its digits: the number itself where it is short. -/
theorem stats_read_back {tree after : FileTree} {time : String} {path : Path} {cutoffs : Cutoffs}
    {traces : List ClassifiedTrace} (hops : ∀ trace ∈ traces, trace.totalOps ≤ maxWord)
    (hspikes : ∀ trace ∈ traces, trace.malloc.spikes + trace.free.spikes ≤ maxWord)
    (hwritten : tree.writeStats time path (traces.map (Report.ofTrace cutoffs)) =
      (.ok (), after)) :
    ((∃ document, after.readStats path = .ok document) ↔
      traces = [] ∨ cutoffs.malloc.isFinite = true ∧ cutoffs.free.isFinite = true) ∧
    ∀ document, after.readStats path = .ok document →
      document.version = StatsDocument.currentVersion ∧ document.generatedAt = time ∧
      document.reports = traces.map (fun trace => (Report.ofTrace cutoffs trace).reread) ∧
      ((∀ trace ∈ traces, ∀ x ∈ (Report.ofTrace cutoffs trace).reals, x.Short) →
        document.reports = traces.map (Report.ofTrace cutoffs)) := by
  have hsound : ∀ report ∈ traces.map (Report.ofTrace cutoffs), report.Sound := by
    rw [List.forall_mem_map]
    exact fun trace htrace =>
      Report.sound_ofTrace cutoffs (hops trace htrace) (hspikes trace htrace)
  constructor
  · have hcutoffs : ∀ report ∈ traces.map (Report.ofTrace cutoffs), report.cutoffs = cutoffs := by
      rw [List.forall_mem_map]
      exact fun trace _ => rfl
    rw [← List.map_eq_nil_iff (f := Report.ofTrace cutoffs),
      ← Report.exists_mapM_readBack hcutoffs]
    constructor
    · rintro ⟨document, hdocument⟩
      obtain ⟨reports, hreports, -⟩ := (FileTree.readStats_eq_ok hsound hwritten).1 hdocument
      exact ⟨reports, hreports⟩
    · rintro ⟨reports, hreports⟩
      exact ⟨_, (FileTree.readStats_eq_ok hsound hwritten).2 ⟨reports, hreports, rfl⟩⟩
  · intro document hdocument
    obtain ⟨reports, hreports, rfl⟩ := (FileTree.readStats_eq_ok hsound hwritten).1 hdocument
    have hreread : reports = traces.map fun trace => (Report.ofTrace cutoffs trace).reread := by
      rw [Report.eq_map_reread hreports, List.map_map]
      rfl
    refine ⟨rfl, rfl, hreread, fun hshort => ?_⟩
    rw [hreread]
    exact List.map_congr_left fun trace htrace =>
      Report.reread_eq fun x hx => Binary64.reread_of_short (hshort trace htrace x hx)

/-- A name that has to be escaped, and one operation of two. -/
def quotedTrace : ClassifiedTrace where
  name := "run_\"é\".csv"
  malloc := { latencies := [2100, 500, 700, 900], sizes := .replicate 4 1, spikes := 1 }

theorem stats_read_back_sample :
    ∃ after document,
      FileTree.writeStats {} "now" (.ofText "stats.json") ([quotedTrace].map (Report.ofTrace {})) =
        (.ok (), after) ∧
      after.readStats (.ofText "stats.json") = .ok document ∧
      document.reports = [quotedTrace].map (Report.ofTrace {}) := by
  obtain ⟨⟨⟩, after, hwritten, -⟩ := exists_of_map_toOption
    (show (FileTree.writeStats {} "now" (.ofText "stats.json")
      ([quotedTrace].map (Report.ofTrace {}))).1.toOption.map id = some () by decide +kernel)
  obtain ⟨hreadable, hread⟩ := stats_read_back (by decide) (by decide) hwritten
  obtain ⟨document, hdocument⟩ := hreadable.2 (.inr (by decide +kernel))
  exact ⟨after, document, hwritten, hdocument,
    (hread document hdocument).2.2.2 (by decide +kernel)⟩

/-- Eleven spikes of twelve operations, which is a percentage of sixteen digits that need more
than 53 bits. -/
def mostlySpikes : ClassifiedTrace where
  name := "run_a.csv"
  malloc := {
    latencies := [2100, 2200, 2300, 2400, 2500, 2600, 2700, 2800, 2900, 3000, 3100, 500]
    sizes := .replicate 12 1
    spikes := 11 }

theorem stats_changed :
    let reports := [Report.ofTrace {} mostlySpikes]
    ∃ after document,
      FileTree.writeStats {} "now" (.ofText "stats.json") reports = (.ok (), after) ∧
      after.readStats (.ofText "stats.json") = .ok document ∧ document.reports ≠ reports := by
  intro reports
  have hsound : ∀ report ∈ reports, report.Sound := by
    rw [List.forall_mem_singleton]
    exact Report.sound_ofTrace {} (by decide) (by decide)
  have hwritten : (FileTree.writeStats {} "now" (.ofText "stats.json") reports).1 = .ok () :=
    eq_ok_of_toOption (by decide +kernel)
  have hread : reports.mapM Report.readBack = .ok (reports.map Report.reread) :=
    eq_ok_of_toOption (by decide +kernel)
  have hrun : FileTree.writeStats {} "now" (.ofText "stats.json") reports = (.ok (), _) :=
    Prod.ext hwritten rfl
  exact ⟨_, _, hrun, (FileTree.readStats_eq_ok hsound hrun).2 ⟨_, hread, rfl⟩, by decide +kernel⟩

end HeapLatency
