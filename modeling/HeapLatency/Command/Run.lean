import HeapLatency.Command.Progress

/-!
# Commands

One trace is analyzed: it is read, its charts are drawn, and its statistics are printed and, on
request, written to a file. Or two or three traces of one benchmark run are compared: they are
analyzed one by one and then drawn over each other. A trace that cannot be read is left out, and
the comparison is made of the others if two remain. The arguments are checked before any trace is
read, and so is that the traces are of one run.
-/

namespace HeapLatency

/-! ## Analyzing -/

structure AnalyzeArgs where
  trace : Path
  report : Option Path := none
  config : Config := {}

namespace AnalyzeArgs

def validate (tree : FileTree) (args : AnalyzeArgs) : Except Fatal Unit :=
  if args.trace.isEmpty then .error .emptyPath
  else if tree.isDirectory args.trace then .error (.directoryPath args.trace)
  else args.config.validate.mapError .invalidConfig

end AnalyzeArgs

def analyzeTrace {μ : Type} (tools : Tools μ) (args : AnalyzeArgs) (tree : FileTree) (memory : μ) :
    Except Fatal Summary × Progress μ :=
  let start : Progress μ := { tree, memory }
  match args.validate tree with
  | .error cause => (.error cause, start)
  | .ok () =>
    match start.processTrace tools args.config args.trace with
    | (.error cause, progress) => (.error (.trace args.trace cause), progress)
    | (.ok _, progress) => progress.finish tools args.report

/-! ## Comparing -/

structure CompareArgs where
  /-- Traces under their labels, in the order of the legend. -/
  traces : List LabeledPath
  /-- Whether the run tokens have to agree; left open, three traces have to be of one run. -/
  sameRun : Option Bool := none
  report : Option Path := none
  config : Config := {}

namespace CompareArgs

def requiresSameRun (args : CompareArgs) : Bool := args.sameRun.getD (args.traces.length = 3)

def validate (args : CompareArgs) : Except Fatal Unit :=
  if args.traces.length < 2 ∨ 3 < args.traces.length then
    .error (.traceCount args.traces.length)
  else
    match args.traces.find? fun trace => trace.path.isEmpty with
    | some trace => .error (.emptyLabeledPath trace.label)
    | none => args.config.validate.mapError .invalidConfig

end CompareArgs

namespace Progress

variable {μ : Type}

def skipTrace (trace : LabeledPath) (cause : TraceError) (progress : Progress μ) : Progress μ :=
  (progress.warn ("Leaving " ++ trace.path.displayName ++ " out of the comparison: " ++
    cause.message trace.path.text)).fail ⟨trace.label, .trace trace.path cause⟩

/-- Works through traces one after the other; gives those that could be read. -/
def processTraces (tools : Tools μ) (config : Config) :
    List LabeledPath → Progress μ → List (String × ClassifiedTrace) × Progress μ
  | [], progress => ([], progress)
  | trace :: traces, progress =>
    match progress.processTrace tools config trace.path with
    | (.error cause, progress) =>
      processTraces tools config traces (progress.skipTrace trace cause)
    | (.ok parsed, progress) =>
      let (others, progress) := processTraces tools config traces progress
      ((trace.label, parsed) :: others, progress)

def comparisonCharts (scale : LogScale) (binning : Binning) (token : RunToken)
    (traces : List (String × ClassifiedTrace)) : List (String × Except BinError Chart) :=
  Operation.all.map fun operation =>
    (operation.name ++ " comparison of " ++ " vs ".intercalate (traces.map (·.1)),
      Chart.logComparison scale binning token traces operation)

/-- Draws the traces that could be read over each other, if there are two. -/
def drawComparison (tools : Tools μ) (binning : Binning) (token : RunToken) (given : Nat)
    (traces : List (String × ClassifiedTrace)) (progress : Progress μ) : Progress μ :=
  if traces.length < 2 then
    (progress.warn ("Step 3/4: Skipping comparison, only " ++ natText traces.length ++ " of " ++
      natText given ++ " traces parsed")).fail ⟨"comparison", .tooFewTraces traces.length⟩
  else progress.drawCharts tools (comparisonCharts tools.scale binning token traces)

end Progress

def compareTraces {μ : Type} (tools : Tools μ) (args : CompareArgs) (tree : FileTree)
    (memory : μ) : Except Fatal Summary × Progress μ :=
  let start : Progress μ := { tree, memory }
  match args.validate with
  | .error cause => (.error cause, start)
  | .ok () =>
    match RunToken.verifySameRun args.requiresSameRun args.traces with
    | .error cause => (.error (.differentRuns cause), start)
    | .ok token =>
      let (traces, progress) := start.processTraces tools args.config args.traces
      (progress.drawComparison tools args.config.binning token args.traces.length traces).finish
        tools args.report

end HeapLatency
