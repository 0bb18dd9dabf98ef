import HeapLatency.Chart.Render
import HeapLatency.Config.Basic
import HeapLatency.Report
import HeapLatency.RunToken
import HeapLatency.Trace.Parse

/-!
# Outcomes of a command

A command either comes to an end, with a summary of what it made and of the steps that failed, or
it stops at a fatal error. A fatal error is told with its causes, the outermost first.
-/

namespace HeapLatency

/-- Why a step of a command failed. -/
inductive FailureCause where
  | render (cause : RenderError)
  | trace (path : Path) (cause : TraceError)
  | tooFewTraces (parsed : Nat)
  deriving DecidableEq

namespace FailureCause

def message : FailureCause → String
  | .render cause => cause.message
  | .trace path cause => cause.message path.text
  | .tooFewTraces parsed => "needs two parsed traces, got " ++ natText parsed

end FailureCause

structure Failure where
  stage : String
  cause : FailureCause
  deriving DecidableEq

namespace Failure

def message (failure : Failure) : String := failure.stage ++ ": " ++ failure.cause.message

end Failure

/-- What a command made, and what it left out. -/
structure Summary where
  charts : List Path := []
  reports : List Report := []
  failures : List Failure := []
  deriving DecidableEq

namespace Summary

def isSuccess (summary : Summary) : Bool := summary.failures.isEmpty

end Summary

inductive Fatal where
  | emptyPath
  | directoryPath (path : Path)
  | traceCount (given : Nat)
  | emptyLabeledPath (label : String)
  | invalidConfig (cause : ConfigFault)
  | differentRuns (cause : RunMismatch)
  | trace (path : Path) (cause : TraceError)
  | stats (cause : OutputError)
  | config (path : Path) (cause : ConfigError)
  | failedSteps (count : Nat)
  deriving DecidableEq

namespace Fatal

private def faultText : Option Fault → List String
  | some fault => [fault.message]
  | none => []

/-- The message of the error and those of its causes. -/
def chain : Fatal → List String
  | .emptyPath => ["Trace path is empty"]
  | .directoryPath path => ["Trace path is a directory: " ++ path.text]
  | .traceCount given => ["Comparison needs two or three traces, got " ++ natText given]
  | .emptyLabeledPath label => ["Trace path for " ++ label ++ " is empty"]
  | .invalidConfig cause =>
    ["Invalid analysis configuration", (ConfigError.invalid cause).message]
  | .differentRuns cause => ["Traces are not from the same benchmark run", cause.message]
  | .trace path cause =>
    ["Failed to analyze " ++ path.text, cause.message path.text] ++ faultText cause.cause?
  | .stats cause => ["Failed to write statistics JSON", cause.message] ++ faultText cause.cause?
  | .config path cause =>
    ["Failed to load config " ++ path.text, cause.message] ++ cause.causes
  | .failedSteps count => [natText count ++ " step(s) failed"]

end Fatal

end HeapLatency
