import HeapLatency.Cli.Options
import HeapLatency.Command.Run
import HeapLatency.Config.Load

/-!
# Running the program

From arguments and files to an exit status, what is printed, and the files afterwards. The status
is zero only when every step succeeded.
-/

namespace HeapLatency

/-- What running the program comes to. -/
structure CliOutcome where
  status : Nat
  output : String := ""
  errors : String := ""
  notices : List Notice := []
  tree : FileTree

namespace Cli

def versionText : String := "alloc-trace 0.1.0"

def usageText : String :=
  "Usage: alloc-trace [OPTIONS] analyze <TRACE>\n" ++
  "       alloc-trace [OPTIONS] compare [--tlsf <PATH>] [--tlsf-ori <PATH>] " ++
  "[--native <PATH>] [--same-run <true|false>]\n" ++
  "\n" ++
  "Options:\n" ++
  "  -m, --malloc-cutoff <CYCLES>  slowest malloc that is no spike\n" ++
  "  -f, --free-cutoff <CYCLES>    slowest free that is no spike\n" ++
  "  -o, --out-dir <DIR>           directory of the charts [default: ./traces]\n" ++
  "      --config <FILE>           TOML file with cutoffs and binning\n" ++
  "      --format <svg|json>       form of the charts [default: svg]\n" ++
  "      --report <FILE>           file for the statistics\n" ++
  "  -v, --verbose                 tell more\n" ++
  "  -h, --help                    show this text\n" ++
  "  -V, --version                 show the version\n"

def indentLines (depth : Nat) (text : String) : String :=
  String.ofList
    (("\n" ++ String.ofList (List.replicate depth ' ')).toList.intercalate
      (splitOn '\n' text.toList))

def causeNumber (number : Nat) : String :=
  let digits := natText number
  String.ofList (List.replicate (5 - digits.length) ' ') ++ digits ++ ": "

/-- The causes of an error. Several are numbered. -/
def causesText : List String → String
  | [] => ""
  | [cause] => "\n\nCaused by:\n    " ++ indentLines 4 cause
  | causes =>
    "\n\nCaused by:" ++
      String.join (causes.mapIdx fun number cause =>
        "\n" ++ causeNumber number ++ indentLines 7 cause)

def errorText (fatal : Fatal) : String :=
  match fatal.chain with
  | [] => ""
  | message :: causes => "Error: " ++ message ++ causesText causes ++ "\n"

/-- The configuration of a run: a file or the defaults, with the cutoffs of the arguments. -/
def buildConfig (tree : FileTree) (options : CliOptions) : Except Fatal Config := do
  let base ←
    match options.config with
    | some path => (tree.loadConfig path).mapError (Fatal.config path)
    | none => pure {}
  let config := base.withCutoffs options.mallocCutoff options.freeCutoff
  config.validate.mapError Fatal.invalidConfig
  return config

/-- The traces of a comparison under their labels. -/
def labeledTraces (tlsf tlsfOri native : Option Path) : List LabeledPath :=
  [("tlsf", tlsf), ("tlsf_ori", tlsfOri), ("native", native)].filterMap fun (label, path) =>
    path.map fun path => ⟨label, path⟩

def runCommand {μ : Type} (tools : Tools μ) (options : CliOptions) (config : Config)
    (tree : FileTree) (memory : μ) : Except Fatal Summary × Progress μ :=
  match options.command with
  | .analyze trace =>
    analyzeTrace tools { trace, report := options.report, config } tree memory
  | .compare tlsf tlsfOri native sameRun =>
    compareTraces tools
      { traces := labeledTraces tlsf tlsfOri native, sameRun, report := options.report, config }
      tree memory

def chartsText (charts : List Path) : String :=
  String.join (charts.map fun chart => "✓ Chart written to: " ++ chart.text ++ "\n")

/-- Ends a run: the charts are listed, and failed steps make it fail. -/
def conclude {μ : Type} (result : Except Fatal Summary × Progress μ) : CliOutcome :=
  let (outcome, progress) := result
  let printed := String.join (progress.printed.map (· ++ "\n"))
  let notices := progress.warnings
  let tree := progress.tree
  match outcome with
  | .error fatal => { status := 1, output := printed, errors := errorText fatal, notices, tree }
  | .ok summary =>
    let output := printed ++ chartsText summary.charts
    if summary.isSuccess then { status := 0, output, notices, tree }
    else
      { status := 1, output, errors := errorText (.failedSteps summary.failures.length), notices,
        tree }

def runOptions (scale : LogScale) (time : String) (options : CliOptions) (tree : FileTree) :
    CliOutcome :=
  match buildConfig tree options with
  | .error fatal => { status := 1, errors := errorText fatal, tree }
  | .ok config =>
    let tools : Tools Unit :=
      { scale, time, renderer := Renderer.toFiles scale {} options.format options.outDir }
    conclude (runCommand tools options config tree ())

/-- Runs the program with arguments; `environment` is the path of the configuration that the
environment gives. -/
def run (scale : LogScale) (time : String) (args : List Bytes) (environment : Option Bytes)
    (tree : FileTree) : CliOutcome :=
  match CliOptions.parse args environment with
  | .error .usage => { status := 2, errors := usageText, tree }
  | .error .help => { status := 0, output := usageText, tree }
  | .error .version => { status := 0, output := versionText ++ "\n", tree }
  | .ok options => runOptions scale time options tree

end Cli

end HeapLatency
