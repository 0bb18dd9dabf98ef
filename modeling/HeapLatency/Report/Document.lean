import HeapLatency.Files.Output
import HeapLatency.Json.Print
import HeapLatency.Json.Typed
import HeapLatency.Report

/-!
# Statistics documents

The reports of a run as a JSON file, in the order in which their traces were given. The document
says which version of the form it follows and when it was made.
-/

namespace HeapLatency

structure StatsDocument where
  version : String
  generatedAt : String
  reports : List Report
  deriving DecidableEq

inductive DocumentError where
  | notOpened (cause : Fault)
  | notRead (cause : Fault)
  | notUnderstood (fault : JsonFault)
  deriving DecidableEq, Repr

namespace StatsDocument

def currentVersion : String := "1.0.0"

/-- The document of reports made at a time, which is given as text. -/
def ofReports (time : String) (reports : List Report) : StatsDocument where
  version := currentVersion
  generatedAt := time
  reports

/-! ## Writing -/

def reportJson (report : Report) : Json :=
  .record [
    ("name", .text report.name),
    (Config.mallocCutoffKey, .real report.cutoffs.malloc),
    (Config.freeCutoffKey, .real report.cutoffs.free),
    ("total_ops", .nat report.total.ops),
    ("malloc_ops", .nat report.malloc.ops),
    ("free_ops", .nat report.free.ops),
    ("total_spikes", .nat report.total.spikes),
    ("malloc_spikes", .nat report.malloc.spikes),
    ("free_spikes", .nat report.free.spikes),
    ("total_spike_percent", Json.optional .real report.total.percent),
    ("malloc_spike_percent", Json.optional .real report.malloc.percent),
    ("free_spike_percent", Json.optional .real report.free.percent)]

def toJson (document : StatsDocument) : Json :=
  .record [
    ("version", .text document.version),
    ("generated_at", .text document.generatedAt),
    ("reports", .list (document.reports.map reportJson))]

/-! ## Reading -/

open JsonScan

def blankTally : Tally := ⟨0, 0, none⟩

def blankReport : Report := ⟨"", ⟨0, 0⟩, blankTally, blankTally, blankTally⟩

private def percentField (name : String) (put : Option Binary64 → Report → Report) :
    RecordField Report :=
  { RecordField.of name expectRealOrNull put with optional := true }

/-- The fields of a report. A percentage that is left out is undefined. -/
def reportFields : List (RecordField Report) := [
  .of "name" expectText fun value report => { report with name := value },
  .of Config.mallocCutoffKey expectReal fun value report =>
    { report with cutoffs.malloc := value },
  .of Config.freeCutoffKey expectReal fun value report => { report with cutoffs.free := value },
  .of "total_ops" expectNat fun value report => { report with total.ops := value },
  .of "malloc_ops" expectNat fun value report => { report with malloc.ops := value },
  .of "free_ops" expectNat fun value report => { report with free.ops := value },
  .of "total_spikes" expectNat fun value report => { report with total.spikes := value },
  .of "malloc_spikes" expectNat fun value report => { report with malloc.spikes := value },
  .of "free_spikes" expectNat fun value report => { report with free.spikes := value },
  percentField "total_spike_percent" fun value report => { report with total.percent := value },
  percentField "malloc_spike_percent" fun value report => { report with malloc.percent := value },
  percentField "free_spike_percent" fun value report => { report with free.percent := value }]

def fields : List (RecordField StatsDocument) := [
  .of "version" expectText fun value document => { document with version := value },
  .of "generated_at" expectText fun value document => { document with generatedAt := value },
  .of "reports" (expectList (expectRecord reportFields blankReport)) fun value document =>
    { document with reports := value }]

def parse (bytes : Bytes) : Except JsonFault StatsDocument :=
  readAll (expectRecord fields ⟨"", "", []⟩) bytes

end StatsDocument

namespace FileTree

def writeStats (tree : FileTree) (time : String) (path : Path) (reports : List Report) :
    Except OutputError Unit × FileTree :=
  tree.writeOutput path (bytesOf (StatsDocument.ofReports time reports).toJson.pretty)

/-- Reads a document. A directory can be opened, but not read. -/
def readStats (tree : FileTree) (path : Path) : Except DocumentError StatsDocument :=
  match tree.read path with
  | .error .isDirectory => .error (.notRead .isDirectory)
  | .error cause => .error (.notOpened cause)
  | .ok bytes => (StatsDocument.parse bytes).mapError .notUnderstood

end FileTree

end HeapLatency
