import HeapLatency.Cli.Run
import Std.Time

/-!
# The program

The command line program. The files that the arguments name are taken into a file tree, the
program is run on the tree, and what changed in the tree is written back.
-/

namespace HeapLatency.Program

/-- The location that a path leads to from a directory, going by its names alone. -/
def locate (home : Location) (path : Path) : Location :=
  path.components.foldl
    (fun location name =>
      if name = Path.here then location
      else if name = Path.above then location.dropLast
      else location ++ [name])
    (if path.isAbsolute then [] else home)

def pathText (location : Location) : String :=
  "/" ++ "/".intercalate (location.map fun name => String.ofList (Utf8.decodeLenient name))

/-- Takes what stands at a location into a tree, a file with its content if that is wanted. -/
def takeNode (withContent : Bool) (location : Location) (tree : FileTree) : IO FileTree := do
  let place := (← IO.currentDir) / pathText location
  if ← place.isDir then
    return if (tree.node? location).isSome then tree else tree.put location (.directory [])
  else if ← place.pathExists then
    let content ← if withContent then IO.FS.readBinFile place else pure ByteArray.empty
    return tree.put location (.file content.toList)
  else return tree

def takePlace (withContent : Bool) (location : Location) (tree : FileTree) : IO FileTree :=
  (List.range location.length).foldlM (fun tree depth =>
    takeNode (withContent && depth + 1 = location.length) (location.take (depth + 1)) tree) tree

def takeDirectory (location : Location) (tree : FileTree) : IO FileTree := do
  let tree ← takePlace false location tree
  if (tree.node? location).any Node.isDirectory then
    let entries ← ((← IO.currentDir) / pathText location).readDir
    entries.foldlM (fun tree entry =>
      takeNode false (location ++ [bytesOf entry.fileName]) tree) tree
  else return tree

def inputs (options : CliOptions) : List Path :=
  options.config.toList ++
    match options.command with
    | .analyze trace => [trace]
    | .compare tlsf tlsfOri native _ => [tlsf, tlsfOri, native].filterMap id

def takeTree (options : CliOptions) : IO FileTree := do
  let home := (Path.ofText (← IO.currentDir).toString).components
  let tree ← takePlace false home { home }
  let tree ← takeDirectory (locate home options.outDir) tree
  let tree ← options.report.toList.foldlM (fun tree path =>
    takePlace false (locate home path) tree) tree
  (inputs options).foldlM (fun tree path => takePlace true (locate home path) tree) tree

/-- Writes what changed between two trees, directories before what they hold. -/
def writeBack (before after : FileTree) : IO Unit := do
  for (location, content) in after.places do
    if (before.node? location).map Node.content? ≠ some content then
      match content with
      | none => IO.FS.createDirAll (pathText location)
      | some content => IO.FS.writeBinFile (pathText location) (ByteArray.mk content.toArray)

def padded (width n : Nat) : String :=
  let digits := natText n
  String.ofList (List.replicate (width - digits.length) '0') ++ digits

/-- The part of a second after the point, in as many groups of three digits as it needs. -/
def fractionText (nanosecond : Nat) : String :=
  if nanosecond = 0 then ""
  else if nanosecond % 1000000 = 0 then "." ++ padded 3 (nanosecond / 1000000)
  else if nanosecond % 1000 = 0 then "." ++ padded 6 (nanosecond / 1000)
  else "." ++ padded 9 nanosecond

def currentTime : IO String := do
  let now := Std.Time.DateTime.ofTimestamp (← Std.Time.Timestamp.now) .UTC
  let date := padded 4 now.year.toInt.toNat ++ "-" ++ padded 2 now.month.toNat ++ "-" ++
    padded 2 now.day.toNat
  let time := padded 2 now.hour.toNat ++ ":" ++ padded 2 now.minute.toNat ++ ":" ++
    padded 2 now.second.toNat ++ fractionText now.nanosecond.toNat
  return date ++ "T" ++ time ++ "+00:00"

def configVariable : String := "ALLOC_TRACE_CONFIG"

def runArgs (args : List String) : IO Nat := do
  let arguments := args.map bytesOf
  let environment := (← IO.getEnv configVariable).map bytesOf
  let tree ←
    match CliOptions.parse arguments environment with
    | .ok options => takeTree options
    | .error _ => pure {}
  let outcome := Cli.run .machine (← currentTime) arguments environment tree
  writeBack tree outcome.tree
  for notice in outcome.notices do
    IO.eprintln notice.line
  IO.print outcome.output
  IO.eprint outcome.errors
  return outcome.status

end HeapLatency.Program

def main (args : List String) : IO UInt32 := do
  return UInt32.ofNat (← HeapLatency.Program.runArgs args)
