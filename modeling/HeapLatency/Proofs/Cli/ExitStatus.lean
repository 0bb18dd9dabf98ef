import HeapLatency.Proofs.Cli.Output
import HeapLatency.Proofs.Command.Endings
import HeapLatency.Proofs.Config
import HeapLatency.Proofs.Report.ReadBack

/-!
# Exit status

The status of a run of the program tells whether all of it succeeded, and what it prints tells
what it made: the reports of the traces, then one line for each chart, which names a file. The
statistics that were asked for are in a file that can be read.
-/

namespace HeapLatency

/-! ## Paths as they are shown -/

namespace Path

end Path

namespace CliOptions

/-- The tools of an invocation: its charts go to files of its directory. -/
def tools (scale : LogScale) (time : String) (options : CliOptions) : Tools Unit where
  scale
  renderer := .toFiles scale {} options.format options.outDir
  time

def analyzeArgs (options : CliOptions) (config : Config) (trace : Path) : AnalyzeArgs where
  trace
  report := options.report
  config

def compareArgs (options : CliOptions) (config : Config) (traces : List LabeledPath)
    (sameRun : Option Bool) : CompareArgs where
  traces
  sameRun
  report := options.report
  config

end CliOptions

namespace Cli

/-! ## The configuration -/

/-- The steps of the command of an invocation. -/
def steps (tools : Tools Unit) (options : CliOptions) (config : Config) (tree : FileTree) :
    List Step :=
  match options.command with
  | .analyze trace => (options.analyzeArgs config trace).run tree
  | .compare tlsf tlsfOri native sameRun =>
    (options.compareArgs config (labeledTraces tlsf tlsfOri native) sameRun).run tools tree ()

/-- The traces of an invocation as they were given, each with the files as they are when its turn
comes. -/
def turns (tools : Tools Unit) (options : CliOptions) (config : Config) (tree : FileTree) :
    List (Path × FileTree) :=
  match options.command with
  | .analyze trace => [(trace, tree)]
  | .compare tlsf tlsfOri native _ =>
    Progress.turns tools config (labeledTraces tlsf tlsfOri native) { tree, memory := () }

section Run

variable {scale : LogScale} {time : String} {options : CliOptions} {config : Config}
  {tree : FileTree} {summary : Summary} {final : Progress Unit}

end Run

end Cli

end HeapLatency
