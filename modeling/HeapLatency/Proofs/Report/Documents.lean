import HeapLatency.Proofs.Json.Layout
import HeapLatency.Report.Document

/-!
# Reading documents back

A statistics document is read as the reports that it was made of, with every real number read by
powers of ten. A cutoff that JSON cannot hold makes the document unreadable.
-/

namespace HeapLatency

open JsonScan

namespace JsonScan.Entry

variable {σ α : Type}

/-! ## Kinds of fields -/

/-- A field that puts what its reader gives into the state. -/
def of (name : String) (reader : JsonReader α) (put : α → σ → σ) (text : String)
    (outcome : Except JsonFault α) : Entry σ where
  field := RecordField.of name reader put
  text
  outcome := outcome.map put

def ofText (name : String) (put : String → σ → σ) (value : String) : Entry σ :=
  of name expectText put (Json.quoteText value) (.ok value)

def ofNat (name : String) (put : Nat → σ → σ) (value : Nat) : Entry σ :=
  of name expectNat put (natText value) (.ok value)

def ofReal (name : String) (put : Binary64 → σ → σ) (value : Binary64) : Entry σ :=
  of name expectReal put (Json.real value).scalarText (rereal value)

def ofPercent (name : String) (put : Option Binary64 → σ → σ) (value : Option Binary64) :
    Entry σ where
  field := { RecordField.of name expectRealOrNull put with optional := true }
  text := (Json.optional .real value).scalarText
  outcome := .ok (put (value.map Binary64.reread))

theorem fits_of {name : String} {reader : JsonReader α} {put : α → σ → σ} {text : String}
    {outcome : Except JsonFault α} (h : Reads reader text outcome) :
    (of name reader put text outcome).Fits :=
  h.map put

theorem fits_ofPercent {name : String} {put : Option Binary64 → σ → σ} {value : Option Binary64}
    (h : ∀ x ∈ value, x.isFinite = true) : (ofPercent name put value).Fits :=
  (reads_percent h).map put

end JsonScan.Entry

/-! ## Reports -/

/-- Counts of 64 bits and a percentage that JSON can hold. -/
structure Tally.Sound (tally : Tally) : Prop where
  ops : tally.ops ≤ maxWord
  spikes : tally.spikes ≤ maxWord
  percent : ∀ x ∈ tally.percent, x.isFinite = true

def Tally.reread (tally : Tally) : Tally :=
  { tally with percent := tally.percent.map Binary64.reread }

namespace Report

structure Sound (report : Report) : Prop where
  total : report.total.Sound
  malloc : report.malloc.Sound
  free : report.free.Sound

/-- The report with every real number as it is read from its data text. -/
def reread (report : Report) : Report where
  name := report.name
  cutoffs := ⟨report.cutoffs.malloc.reread, report.cutoffs.free.reread⟩
  total := report.total.reread
  malloc := report.malloc.reread
  free := report.free.reread

/-- What reading a written report gives. -/
def readBack (report : Report) : Except JsonFault Report :=
  if report.cutoffs.malloc.isFinite = true ∧ report.cutoffs.free.isFinite = true then
    .ok report.reread
  else .error .mismatch

/-- The fields of a report with what reading each gives. -/
def entries (report : Report) : List (Entry Report) := [
  .ofText "name" (fun value report => { report with name := value }) report.name,
  .ofReal Config.mallocCutoffKey (fun value report => { report with cutoffs.malloc := value })
    report.cutoffs.malloc,
  .ofReal Config.freeCutoffKey (fun value report => { report with cutoffs.free := value })
    report.cutoffs.free,
  .ofNat "total_ops" (fun value report => { report with total.ops := value }) report.total.ops,
  .ofNat "malloc_ops" (fun value report => { report with malloc.ops := value }) report.malloc.ops,
  .ofNat "free_ops" (fun value report => { report with free.ops := value }) report.free.ops,
  .ofNat "total_spikes" (fun value report => { report with total.spikes := value })
    report.total.spikes,
  .ofNat "malloc_spikes" (fun value report => { report with malloc.spikes := value })
    report.malloc.spikes,
  .ofNat "free_spikes" (fun value report => { report with free.spikes := value })
    report.free.spikes,
  .ofPercent "total_spike_percent" (fun value report => { report with total.percent := value })
    report.total.percent,
  .ofPercent "malloc_spike_percent" (fun value report => { report with malloc.percent := value })
    report.malloc.percent,
  .ofPercent "free_spike_percent" (fun value report => { report with free.percent := value })
    report.free.percent]

theorem field_entries (report : Report) :
    report.entries.map (fun entry => entry.field) = StatsDocument.reportFields := by
  rfl

theorem layout_reportJson (report : Report) (depth : Nat) :
    (StatsDocument.reportJson report).layout depth =
      Json.block Json.openBrace Json.closeBrace depth (report.entries.map Entry.line) := by
  have hpercent (value : Option Binary64) (depth : Nat) :
      (Json.optional .real value).layout depth = (Json.optional .real value).scalarText := by
    cases value <;> rw [Json.optional] <;> rfl
  rw [StatsDocument.reportJson, Json.layout]
  simp only [Json.layoutFields, hpercent]
  rfl

theorem fits_entries {report : Report} (h : report.Sound) :
    ∀ entry ∈ report.entries, entry.Fits := by
  simp only [entries, List.forall_mem_cons]
  exact ⟨Entry.fits_of (reads_text _), Entry.fits_of (reads_real _), Entry.fits_of (reads_real _),
    Entry.fits_of (reads_nat h.total.ops), Entry.fits_of (reads_nat h.malloc.ops),
    Entry.fits_of (reads_nat h.free.ops), Entry.fits_of (reads_nat h.total.spikes),
    Entry.fits_of (reads_nat h.malloc.spikes), Entry.fits_of (reads_nat h.free.spikes),
    Entry.fits_ofPercent h.total.percent, Entry.fits_ofPercent h.malloc.percent,
    Entry.fits_ofPercent h.free.percent, nofun⟩

/-- The first cutoff that is no number ends the reading; without one every field is put. -/
theorem run_entries (report initial : Report) :
    Entry.run report.entries initial = report.readBack := by
  have hreal {x : Binary64} (hx : x.isFinite = true) : rereal x = .ok x.reread := if_pos hx
  have hnull {x : Binary64} (hx : ¬x.isFinite = true) : rereal x = .error .mismatch := if_neg hx
  rw [readBack]
  by_cases hmalloc : report.cutoffs.malloc.isFinite = true
  · by_cases hfree : report.cutoffs.free.isFinite = true
    · rw [if_pos ⟨hmalloc, hfree⟩]
      simp only [entries, Entry.ofReal, hreal hmalloc, hreal hfree]
      rfl
    · rw [if_neg fun h => hfree h.2]
      simp only [entries, Entry.ofReal, hreal hmalloc, hnull hfree]
      rfl
  · rw [if_neg fun h => hmalloc h.1]
    simp only [entries, Entry.ofReal, hnull hmalloc]
    rfl

theorem reads_reportJson {report : Report} (h : report.Sound) (initial : Report) (depth : Nat) :
    Reads (expectRecord StatsDocument.reportFields initial)
      ((StatsDocument.reportJson report).layout depth) report.readBack := by
  have hnames : (report.entries.map fun entry => entry.field.name).Nodup := by
    show (["name", Config.mallocCutoffKey, Config.freeCutoffKey, "total_ops", "malloc_ops",
      "free_ops", "total_spikes", "malloc_spikes", "free_spikes", "total_spike_percent",
      "malloc_spike_percent", "free_spike_percent"] : List String).Nodup
    decide
  rw [layout_reportJson, ← field_entries report, ← run_entries report initial]
  exact reads_record (fits_entries h) hnames initial

end Report

/-! ## Documents -/

namespace StatsDocument

/-- The fields of a document with what reading each gives. -/
def entries (document : StatsDocument) : List (Entry StatsDocument) := [
  .ofText "version" (fun value document => { document with version := value }) document.version,
  .ofText "generated_at" (fun value document => { document with generatedAt := value })
    document.generatedAt,
  .of "reports" (expectList (expectRecord reportFields blankReport))
    (fun value document => { document with reports := value })
    ((Json.list (document.reports.map reportJson)).layout 1)
    (document.reports.mapM Report.readBack)]

theorem field_entries (document : StatsDocument) :
    document.entries.map (fun entry => entry.field) = fields := by
  rfl

theorem layout_toJson (document : StatsDocument) :
    document.toJson.pretty =
      Json.block Json.openBrace Json.closeBrace 0 (document.entries.map Entry.line) := by
  rw [Json.pretty, toJson, Json.layout]
  rfl

theorem layoutItems_eq_map (depth : Nat) (items : List Json) :
    Json.layoutItems depth items = items.map fun item => item.layout (depth + 1) := by
  induction items with
  | nil => rfl
  | cons item items ih => rw [Json.layoutItems, ih, List.map_cons]

theorem reads_reports {reports : List Report} (h : ∀ report ∈ reports, report.Sound) (depth : Nat) :
    Reads (expectList (expectRecord reportFields blankReport))
      ((Json.list (reports.map reportJson)).layout depth) (reports.mapM Report.readBack) := by
  have houtcomes : reports.mapM Report.readBack = (reports.map Report.readBack).mapM id := by
    rw [List.mapM_map]
    rfl
  rw [Json.layout, layoutItems_eq_map, List.map_map, houtcomes]
  apply reads_list
  rw [List.forall₂_map_left_iff, List.forall₂_map_right_iff, List.forall₂_same]
  exact fun report hreport => Report.reads_reportJson (h report hreport) blankReport (depth + 1)

theorem fits_entries {document : StatsDocument} (h : ∀ report ∈ document.reports, report.Sound) :
    ∀ entry ∈ document.entries, entry.Fits := by
  simp only [entries, List.forall_mem_cons]
  exact ⟨Entry.fits_of (reads_text _), Entry.fits_of (reads_text _),
    Entry.fits_of (reads_reports h 1), nofun⟩

theorem run_entries (document initial : StatsDocument) :
    Entry.run document.entries initial =
      (document.reports.mapM Report.readBack).map fun reports => { document with reports } := by
  simp only [entries]
  cases document.reports.mapM Report.readBack <;> rfl

theorem parse_toJson {document : StatsDocument} (h : ∀ report ∈ document.reports, report.Sound) :
    parse (bytesOf document.toJson.pretty) =
      (document.reports.mapM Report.readBack).map fun reports => { document with reports } := by
  have hnames : (document.entries.map fun entry => entry.field.name).Nodup := by
    show (["version", "generated_at", "reports"] : List String).Nodup
    decide
  rw [parse, layout_toJson, ← field_entries document, ← run_entries document ⟨"", "", []⟩]
  exact readAll_of_reads (reads_record (fits_entries h) hnames _)

end StatsDocument

namespace Report

theorem eq_reread_of_readBack {report read : Report} (h : report.readBack = .ok read) :
    read = report.reread := by
  rw [readBack] at h
  split at h
  · exact (Except.ok.inj h).symm
  · cases h

/-- All reports are read, or the first one that is not decides. -/
theorem eq_map_reread {reports read : List Report} (h : reports.mapM readBack = .ok read) :
    read = reports.map reread := by
  induction reports generalizing read with
  | nil => exact (Except.ok.inj h).symm
  | cons report reports ih =>
    rw [List.mapM_cons, bind_eq_ok] at h
    obtain ⟨first, hfirst, h⟩ := h
    rw [bind_eq_ok] at h
    obtain ⟨others, hothers, h⟩ := h
    rw [pure_eq_ok] at h
    rw [h, eq_reread_of_readBack hfirst, ih hothers, List.map_cons]

theorem exists_mapM_readBack {reports : List Report} {cutoffs : Cutoffs}
    (h : ∀ report ∈ reports, report.cutoffs = cutoffs) :
    (∃ read, reports.mapM readBack = .ok read) ↔
      reports = [] ∨ cutoffs.malloc.isFinite = true ∧ cutoffs.free.isFinite = true := by
  constructor
  · rintro ⟨read, hread⟩
    cases reports with
    | nil => exact .inl rfl
    | cons report reports =>
      -- the first report decides already
      rw [List.mapM_cons, bind_eq_ok] at hread
      obtain ⟨first, hfirst, -⟩ := hread
      rw [readBack, h report List.mem_cons_self] at hfirst
      split at hfirst
      · exact .inr ‹_›
      · cases hfirst
  · rintro (rfl | hfinite)
    · exact ⟨[], rfl⟩
    · have hall : ∀ report ∈ reports, report.readBack = .ok report.reread := by
        intro report hreport
        rw [readBack, h report hreport, if_pos hfinite]
      clear h
      induction reports with
      | nil => exact ⟨[], rfl⟩
      | cons report reports ih =>
        obtain ⟨read, hread⟩ := ih fun other hother => hall other (List.mem_cons_of_mem _ hother)
        refine ⟨report.reread :: read, ?_⟩
        rw [List.mapM_cons, hall report List.mem_cons_self, hread]
        rfl

end Report

end HeapLatency
