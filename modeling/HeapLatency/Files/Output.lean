import HeapLatency.Files.Tree

/-!
# Output files

Writing a file whose directories may be missing. The path is checked first, then the directories
above it are created, then the file is created or replaced.
-/

namespace HeapLatency

inductive OutputError where
  | emptyPath
  | directoryPath (path : Path)
  | noParent (parent : Path) (cause : Fault)
  | notWritten (cause : Fault)
  deriving DecidableEq, Repr

namespace OutputError

/-- The path could not be an output path, as opposed to a failure while writing. -/
def isInvalidPath : OutputError → Bool
  | .notWritten _ => false
  | _ => true

def message : OutputError → String
  | .emptyPath => "Invalid output path: Path is empty"
  | .directoryPath path => "Invalid output path: Path is a directory: " ++ path.text
  | .noParent parent cause =>
    "Invalid output path: Cannot create directory " ++ parent.text ++ ": " ++ cause.message
  | .notWritten cause => "Failed to write file: " ++ cause.message

/-- The fault of the file system behind an error, where it counts as a cause of its own. -/
def cause? : OutputError → Option Fault
  | .notWritten cause => some cause
  | _ => none

end OutputError

namespace FileTree

/-- An output path is not empty and names no directory. -/
def validateOutput (tree : FileTree) (path : Path) : Except OutputError Unit :=
  if path.isEmpty then .error .emptyPath
  else if tree.isDirectory path then .error (.directoryPath path)
  else .ok ()

/-- Creates the missing directories above an output path. -/
def makeParent (tree : FileTree) (path : Path) : Except OutputError Unit × FileTree :=
  match path.parent? with
  | none => (.ok (), tree)
  | some parent =>
    if parent.isEmpty || tree.contains parent then (.ok (), tree)
    else
      match tree.makeDirectories parent with
      | (.ok (), made) => (.ok (), made)
      | (.error cause, left) => (.error (.noParent parent cause), left)

def writeOutput (tree : FileTree) (path : Path) (content : Bytes) :
    Except OutputError Unit × FileTree :=
  match tree.validateOutput path with
  | .error cause => (.error cause, tree)
  | .ok () =>
    match tree.makeParent path with
    | (.error cause, left) => (.error cause, left)
    | (.ok (), ready) =>
      match ready.write path content with
      | .ok written => (.ok (), written)
      | .error cause => (.error (.notWritten cause), ready)

end FileTree

end HeapLatency
