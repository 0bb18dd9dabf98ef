import HeapLatency.Files.Tree
import HeapLatency.Notice
import HeapLatency.Trace.Row

/-!
# Reading a trace

A trace is text of which the first two lines are a preamble that nobody looks at, and every
further line that is not blank is a row. The first fault in the order of the lines decides;
that the preamble is incomplete is found last.
-/

namespace HeapLatency

/-- Why a text is no trace. Lines are counted from one. -/
inductive TraceError where
  | unreadable (cause : Fault)
  | truncated (lines : Nat)
  | malformed (line : Nat) (row : List Char) (reason : RowError)
  deriving DecidableEq, Repr

namespace TraceError

def message (source : String) : TraceError → String
  | .unreadable cause => "Failed to read trace " ++ source ++ ": " ++ cause.message
  | .truncated lines =>
    "Trace " ++ source ++ " is truncated: expected a 2-line preamble, found " ++
      natText lines ++ " line(s)"
  | .malformed line row reason =>
    "Malformed row in " ++ source ++ " at line " ++ natText line ++ " (" ++ reason.message ++
      "): " ++ quoted row

/-- The fault of the file system behind an error, where it counts as a cause of its own. -/
def cause? : TraceError → Option Fault
  | .unreadable cause => some cause
  | _ => none

end TraceError

/-- The events of a trace, and how many rows name no known operation. -/
structure Trace where
  events : List Event
  unrecognized : Nat
  deriving DecidableEq, Repr

namespace Trace

def preamble : Nat := 2

/-- The rows of consecutive lines with their events; `number` is the number of the first. -/
def rowsFrom (number : Nat) : List Bytes → Except TraceError (List (List Char × Event))
  | [] => .ok []
  | line :: rest =>
    match Utf8.decode? line with
    | none => .error (.unreadable .invalidUtf8)
    | some text =>
      let row := trim text
      if row.isEmpty then rowsFrom (number + 1) rest
      else
        match Row.parse row with
        | .error reason => .error (.malformed number row reason)
        | .ok event => (rowsFrom (number + 1) rest).map ((row, event) :: ·)

def parse (bytes : Bytes) : Except TraceError Trace := do
  let lines := linesOf bytes
  if (lines.take preamble).any fun line => (Utf8.decode? line).isNone then
    throw (.unreadable .invalidUtf8)
  let rows ← rowsFrom (preamble + 1) (lines.drop preamble)
  if lines.length < preamble then
    throw (.truncated lines.length)
  return { events := rows.map (·.2)
           unrecognized := rows.countP fun row => !Row.isRecognized row.1 }

def notices (source : String) (trace : Trace) : List Notice :=
  (if trace.unrecognized = 0 then []
  else
    [⟨.debug, source ++ ": " ++ natText trace.unrecognized ++
      " row(s) with an op type other than malloc/free counted as free"⟩]) ++
  [⟨.debug, "Parsed " ++ natText trace.events.length ++ " events from " ++ source⟩]

end Trace

namespace FileTree

/-- Reads a trace from a file. The file is not changed, and nothing is kept of it when it is no
trace. -/
def readTrace (tree : FileTree) (path : Path) : Except TraceError Trace :=
  match tree.read path with
  | .error cause => .error (.unreadable cause)
  | .ok bytes => Trace.parse bytes

end FileTree

end HeapLatency
