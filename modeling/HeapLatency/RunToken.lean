import HeapLatency.Files.Path
import HeapLatency.Notice

/-!
# Run tokens

The traces of one benchmark run have file names that begin with the same token, which ends at
the first underscore. Traces are compared under labels; on request their tokens must agree.
-/

namespace HeapLatency

/-- What identifies a benchmark run. It is only compared for equality. -/
structure RunToken where
  text : String
  deriving DecidableEq, Repr

/-- A trace with the name under which it is compared. -/
structure LabeledPath where
  label : String
  path : Path
  deriving DecidableEq, Repr

namespace RunToken

/-- The part of a name before its first underscore. -/
def ofName (name : String) : RunToken :=
  ⟨String.ofList (name.toList.takeWhile (· ≠ '_'))⟩

/-- The token of a path: that of its file name, or of the whole path if it has none. -/
def ofPath (path : Path) : RunToken :=
  match path.fileName? with
  | some name => ofName (String.ofList (Utf8.decodeLenient name))
  | none => ofName path.text

end RunToken

structure RunMismatch where
  tokens : List (String × RunToken)
  deriving DecidableEq, Repr

namespace RunMismatch

def message (mismatch : RunMismatch) : String :=
  "Trace run tokens mismatch (" ++
    ", ".intercalate (mismatch.tokens.map fun (label, token) => label ++ "=" ++ token.text) ++
    "); if the traces come from different runs, disable the same-run check"

end RunMismatch

namespace RunToken

def labeled (traces : List LabeledPath) : List (String × RunToken) :=
  traces.map fun trace => (trace.label, ofPath trace.path)

/-- The token of the first trace, the empty one if there is none. With `sameRun` every trace
must carry it. -/
def verifySameRun (sameRun : Bool) (traces : List LabeledPath) : Except RunMismatch RunToken :=
  match labeled traces with
  | [] => .ok ⟨""⟩
  | (label, first) :: rest =>
    if sameRun && rest.any (fun entry => entry.2 != first) then
      .error ⟨(label, first) :: rest⟩
    else .ok first

def notices (sameRun : Bool) (traces : List LabeledPath) : List Notice :=
  (labeled traces).map (fun (label, token) =>
    ⟨.debug, "Trace run token for " ++ label ++ " is: " ++ token.text⟩) ++
  if sameRun || traces.isEmpty then []
  else [⟨.info, "Same-run check disabled, comparing traces as given"⟩]

end RunToken

end HeapLatency
