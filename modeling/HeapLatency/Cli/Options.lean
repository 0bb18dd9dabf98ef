import HeapLatency.Chart.Render
import HeapLatency.Number.Decimal

/-!
# Command line options

The arguments of the program: options, the name of a command, and the options and paths of that
command. Options that are common to all commands may stand on either side of the name, and the
one behind it counts. An option is given at most once on each side. Arguments are bytes: paths are
taken as they are, and all other values have to be text.
-/

namespace HeapLatency

inductive CliOption where
  | mallocCutoff
  | freeCutoff
  | outDir
  | config
  | format
  | report
  | verbose
  | help
  | version
  | tlsf
  | tlsfOri
  | native
  | sameRun
  deriving DecidableEq, Repr

/-- Which arguments are being read: those before the name of a command, or those of one. -/
inductive CliLevel where
  | program
  | analyze
  | compare
  deriving DecidableEq, Repr

inductive CliStop where
  | usage
  | help
  | version
  deriving DecidableEq, Repr

namespace CliOption

def long : CliOption → String
  | .mallocCutoff => "malloc-cutoff"
  | .freeCutoff => "free-cutoff"
  | .outDir => "out-dir"
  | .config => "config"
  | .format => "format"
  | .report => "report"
  | .verbose => "verbose"
  | .help => "help"
  | .version => "version"
  | .tlsf => "tlsf"
  | .tlsfOri => "tlsf-ori"
  | .native => "native"
  | .sameRun => "same-run"

def short? : CliOption → Option Char
  | .mallocCutoff => some 'm'
  | .freeCutoff => some 'f'
  | .outDir => some 'o'
  | .verbose => some 'v'
  | .help => some 'h'
  | .version => some 'V'
  | _ => none

def takesValue : CliOption → Bool
  | .verbose | .help | .version => false
  | _ => true

def number? (value : Bytes) : Option Binary64 := (Utf8.decode? value).bind Binary64.read?

def format? (value : Bytes) : Option ChartFormat :=
  (Utf8.decode? value).bind fun text => ChartFormat.ofName? (String.ofList text)

def yes : Bytes := bytesOf "true"

def no : Bytes := bytesOf "false"

def accepts (value : Bytes) : CliOption → Bool
  | .mallocCutoff | .freeCutoff => (number? value).isSome
  | .format => (format? value).isSome
  | .sameRun => value = yes || value = no
  | .outDir | .config | .report | .tlsf | .tlsfOri | .native => !value.isEmpty
  | .verbose | .help | .version => false

def common : List CliOption :=
  [.mallocCutoff, .freeCutoff, .outDir, .config, .format, .report, .verbose, .help]

end CliOption

namespace CliLevel

def options : CliLevel → List CliOption
  | .program => .version :: CliOption.common
  | .analyze => CliOption.common
  | .compare => CliOption.common ++ [.tlsf, .tlsfOri, .native, .sameRun]

/-- How many paths stand at a level without an option. -/
def paths : CliLevel → Nat
  | .analyze => 1
  | _ => 0

def ofCommand? (name : Bytes) : Option CliLevel :=
  if name = bytesOf "analyze" then some .analyze
  else if name = bytesOf "compare" then some .compare
  else none

end CliLevel

/-- The command that tells about the others. -/
def helpCommand : Bytes := bytesOf "help"

structure CliGiven where
  options : List (CliOption × Bytes) := []
  paths : List Bytes := []

namespace CliGiven

def value? (given : CliGiven) (option : CliOption) : Option Bytes :=
  (given.options.find? fun entry => entry.1 = option).map (·.2)

def give (given : CliGiven) (option : CliOption) (value : Bytes) : Except CliStop CliGiven :=
  if (given.value? option).isSome ∨ !option.accepts value then .error .usage
  else .ok { given with options := (option, value) :: given.options }

/-- Adds an option without a value. Two of them end the reading. -/
def flag (given : CliGiven) (option : CliOption) : Except CliStop CliGiven :=
  match option with
  | .help => .error .help
  | .version => .error .version
  | _ =>
    if (given.value? option).isSome then .error .usage
    else .ok { given with options := (option, []) :: given.options }

def addPath (given : CliGiven) (level : CliLevel) (path : Bytes) : Except CliStop CliGiven :=
  if path.isEmpty ∨ level.paths ≤ given.paths.length then .error .usage
  else .ok { given with paths := given.paths ++ [path] }

def dash : UInt8 := 0x2D

def equalsSign : UInt8 := 0x3D

/-- Adds the options of letters after one dash. The first that takes a value has the rest for
it, or waits for the next argument. -/
def letters (level : CliLevel) : Bytes → CliGiven →
    Except CliStop (CliGiven × Option CliOption)
  | [], given => .ok (given, none)
  | letter :: rest, given =>
    match level.options.find? fun option => option.short?.map Char.toUInt8 = some letter with
    | none => .error .usage
    | some option =>
      if option.takesValue then
        match rest with
        | [] => .ok (given, some option)
        | first :: others =>
          (given.give option (if first = equalsSign then others else rest)).map (·, none)
      else (given.flag option).bind (letters level rest)

/-- Adds the option of a name after two dashes, with the value after an equals sign if there is
one. -/
def named (level : CliLevel) (text : Bytes) (given : CliGiven) :
    Except CliStop (CliGiven × Option CliOption) :=
  let name := text.takeWhile (· ≠ equalsSign)
  match level.options.find? fun option => bytesOf option.long = name, text.drop name.length with
  | none, _ => .error .usage
  | some option, [] =>
    if option.takesValue then .ok (given, some option) else (given.flag option).map (·, none)
  | some option, _ :: value =>
    if option.takesValue then (given.give option value).map (·, none)
    else .error .usage

end CliGiven

/-- The arguments at one level, up to the name of a command with what follows it. `waiting` is an
option whose value comes next; after two dashes all arguments are paths. -/
def readLevel (level : CliLevel) :
    List Bytes → Bool → Option CliOption → CliGiven →
      Except CliStop (CliGiven × Option (Bytes × List Bytes))
  | [], _, waiting, given => if waiting.isSome then .error .usage else .ok (given, none)
  | arg :: args, true, waiting, given => do
    if waiting.isSome then throw .usage
    let given ← given.addPath level arg
    readLevel level args true none given
  | arg :: args, false, some option, given => do
    if arg.head? = some CliGiven.dash ∧ arg ≠ [CliGiven.dash] then throw .usage
    let given ← given.give option arg
    readLevel level args false none given
  | arg :: args, false, none, given =>
    if level = .program ∧ ((CliLevel.ofCommand? arg).isSome ∨ arg = helpCommand) then
      .ok (given, some (arg, args))
    else if arg = [CliGiven.dash, CliGiven.dash] then readLevel level args true none given
    else if arg.take 2 = [CliGiven.dash, CliGiven.dash] then do
      let (given, waiting) ← given.named level (arg.drop 2)
      readLevel level args false waiting given
    else if arg.head? = some CliGiven.dash ∧ arg ≠ [CliGiven.dash] then do
      let (given, waiting) ← CliGiven.letters level (arg.drop 1) given
      readLevel level args false waiting given
    else do
      let given ← given.addPath level arg
      readLevel level args false none given

inductive CliCommand where
  | analyze (trace : Path)
  | compare (tlsf tlsfOri native : Option Path) (sameRun : Option Bool)
  deriving DecidableEq, Repr

/-- What the program is to do. -/
structure CliOptions where
  command : CliCommand
  mallocCutoff : Option Binary64 := none
  freeCutoff : Option Binary64 := none
  outDir : Path := .ofText "./traces"
  config : Option Path := none
  format : ChartFormat := .svg
  report : Option Path := none
  verbose : Bool := false

namespace CliOptions

def setting (outer inner : CliGiven) (environment : Option Bytes) (option : CliOption) :
    Option Bytes :=
  ((inner.value? option).or (outer.value? option)).or
    (if option = .config then environment else none)

def ofGiven (outer inner : CliGiven) (environment : Option Bytes) (command : CliCommand) :
    CliOptions :=
  let value := setting outer inner environment
  let path (option : CliOption) := (value option).map Path.mk
  { command
    mallocCutoff := (value .mallocCutoff).bind CliOption.number?
    freeCutoff := (value .freeCutoff).bind CliOption.number?
    outDir := (path .outDir).getD (.ofText "./traces")
    config := path .config
    format := ((value .format).bind CliOption.format?).getD .svg
    report := path .report
    verbose := (value .verbose).isSome }

/-- An empty configuration path from the environment is refused where it would count. -/
def checkEnvironment (environment : Option Bytes) (given : CliGiven) : Except CliStop Unit :=
  if environment = some [] ∧ given.value? .config = none then .error .usage else .ok ()

/-- What asking for help with some topics comes to: the commands are the topics that there are. -/
def stopOfTopics : List Bytes → CliStop
  | [] => .help
  | [topic] =>
    if (CliLevel.ofCommand? topic).isSome ∨ topic = helpCommand then .help else .usage
  | _ => .usage

/-- Reads arguments. The path of the configuration may also come from the environment. -/
def parse (args : List Bytes) (environment : Option Bytes) : Except CliStop CliOptions := do
  let (outer, found) ← readLevel .program args false none {}
  match found with
  | none => throw .usage
  | some (name, rest) =>
    match CliLevel.ofCommand? name with
    | none =>
      throw (stopOfTopics rest)
    | some level =>
      let (inner, _) ← readLevel level rest false none {}
      checkEnvironment environment inner
      checkEnvironment environment outer
      let path (option : CliOption) := (inner.value? option).map Path.mk
      match level, inner.paths with
      | .compare, _ =>
        return ofGiven outer inner environment
          (.compare (path .tlsf) (path .tlsfOri) (path .native)
            ((inner.value? .sameRun).map (· = CliOption.yes)))
      | _, [trace] => return ofGiven outer inner environment (.analyze ⟨trace⟩)
      | _, _ => throw .usage

end CliOptions

end HeapLatency
