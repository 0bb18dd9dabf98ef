import HeapLatency.Files.Fault
import HeapLatency.Files.Node
import HeapLatency.Files.Path

/-!
# File trees

All files and directories, each at a location: the names that lead to it from the root. A path is
walked component by component, and every component is looked up in a directory. An operation
gives its outcome together with the tree that it leaves behind, since a part of its work may be
done when it fails.
-/

namespace HeapLatency

/-- The names in the root directory, and the location of the directory where relative paths
begin. -/
structure FileTree where
  home : Location := []
  entries : Entries := []
  deriving Repr

namespace FileTree

/-! ## Locations -/

def root (tree : FileTree) : Node := .directory tree.entries

def node? (tree : FileTree) (location : Location) : Option Node := tree.root.at? location

/-- The tree with another root. A file can be no root. -/
def withRoot (tree : FileTree) : Node → FileTree
  | .directory entries => { tree with entries }
  | .file _ => tree

def put (tree : FileTree) (location : Location) (node : Node) : FileTree :=
  tree.withRoot (Node.put node location tree.root)

def erase (tree : FileTree) (location : Location) : FileTree :=
  tree.withRoot (tree.root.erase location)

/-- An empty working directory with that location. -/
def empty (home : Location) : FileTree := put { home } home (.directory [])

/-! ## Walking -/

def maxName : Nat := 255

def maxPath : Nat := 4095

/-- A way into the tree: names and what they stand for, the nearest first. -/
abbrev Trail := List (Bytes × Node)

namespace Trail

def location (trail : Trail) : Location := (trail.map (·.1)).reverse

end Trail

def goal (tree : FileTree) : Trail → Node
  | [] => tree.root
  | step :: _ => step.2

/-- Goes from the end of a trail to what a name there stands for. Above the root is the root. -/
def enter (tree : FileTree) (trail : Trail) (name : Bytes) : Except Fault Trail :=
  if name = Path.here then .ok trail
  else if name = Path.above then .ok trail.tail
  else if maxName < name.length then .error .nameTooLong
  else
    match (tree.goal trail).child? name with
    | none => .error .notFound
    | some node => .ok ((name, node) :: trail)

/-- Follows names, each looked up in a directory. -/
def walk (tree : FileTree) (trail : Trail) : List Bytes → Except Fault Trail
  | [] => .ok trail
  | name :: names =>
    if (tree.goal trail).isDirectory then
      match tree.enter trail name with
      | .ok next => tree.walk next names
      | .error fault => .error fault
    else .error .notDirectory

def checkPath (path : Path) : Except Fault Unit :=
  if path.bytes.contains 0 then .error .nulInName
  else if path.isEmpty then .error .notFound
  else if maxPath < path.bytes.length then .error .nameTooLong
  else .ok ()

def origin (tree : FileTree) (path : Path) : Except Fault Trail :=
  if path.isAbsolute then .ok [] else tree.walk [] tree.home

/-- The way that a path describes. A slash at the end asks for a directory. -/
def trail (tree : FileTree) (path : Path) : Except Fault Trail := do
  checkPath path
  tree.walk (← tree.origin path)
    (path.components ++ if path.endsInSlash then [Path.here] else [])

def resolve (tree : FileTree) (path : Path) : Except Fault Location :=
  (tree.trail path).map Trail.location

/-- The location of the directory and the name that a path gives to something new; no name if the
path ends in a component that is none. -/
def resolveNew (tree : FileTree) (path : Path) : Except Fault (Location × Option Bytes) := do
  checkPath path
  match path.components.getLast? with
  | none => return ([], none)
  | some name =>
    let trail ← tree.walk (← tree.origin path) path.components.dropLast
    if (tree.goal trail).isDirectory then
      return (Trail.location trail,
        if name = Path.here ∨ name = Path.above then none else some name)
    else throw .notDirectory

/-! ## Questions -/

def contains (tree : FileTree) (path : Path) : Bool := (tree.trail path).toBool

def isDirectory (tree : FileTree) (path : Path) : Bool :=
  match tree.trail path with
  | .ok trail => (tree.goal trail).isDirectory
  | .error _ => false

def read (tree : FileTree) (path : Path) : Except Fault Bytes := do
  let trail ← tree.trail path
  match tree.goal trail with
  | .file content => return content
  | .directory _ => throw .isDirectory

def places (tree : FileTree) : List (Location × Option Bytes) := tree.root.placesBelow []

/-- The locations below the working directory, as paths in ascending order of their bytes. A
directory ends in a slash. -/
def list (tree : FileTree) : List Bytes :=
  let entry (location : Location) (content : Option Bytes) : Bytes :=
    [Path.slash].intercalate location ++ if content.isSome then [] else [Path.slash]
  match tree.node? tree.home with
  | some home =>
    ((home.placesBelow []).map fun (location, content) => entry location content).mergeSort
  | none => []

/-! ## Changes -/

/-- The location of the file that writing to a path creates or replaces. -/
def writeTarget (tree : FileTree) (path : Path) : Except Fault Location := do
  let (directory, name) ← tree.resolveNew path
  match name with
  | none => throw .isDirectory
  | some name =>
    if path.endsInSlash then throw .isDirectory
    else if maxName < name.length then throw .nameTooLong
    else if (tree.node? (directory ++ [name])).any Node.isDirectory then throw .isDirectory
    else return directory ++ [name]

def write (tree : FileTree) (path : Path) (content : Bytes) : Except Fault FileTree :=
  (tree.writeTarget path).map fun location => tree.put location (.file content)

def makeDirectory (tree : FileTree) (path : Path) : Except Fault FileTree := do
  let (directory, name) ← tree.resolveNew path
  match name with
  | none => throw .exists
  | some name =>
    if maxName < name.length then throw .nameTooLong
    else if (tree.node? (directory ++ [name])).isSome then throw .exists
    else return tree.put (directory ++ [name]) (.directory [])

/-- Creates the first of the given paths, each of which stands above the one before it. Those
above it are created when they are missing. -/
def makeChain (tree : FileTree) : List Path → Except Fault Unit × FileTree
  | [] => (.ok (), tree)
  | path :: above =>
    if path.isEmpty then (.ok (), tree)
    else
      match tree.makeDirectory path with
      | .ok made => (.ok (), made)
      | .error .notFound =>
        match tree.makeChain above with
        | (.error cause, left) => (.error cause, left)
        | (.ok (), left) =>
          match left.makeDirectory path with
          | .ok made => (.ok (), made)
          | .error cause => (if left.isDirectory path then .ok () else .error cause, left)
      | .error cause => (if tree.isDirectory path then .ok () else .error cause, tree)

def makeDirectories (tree : FileTree) (path : Path) : Except Fault Unit × FileTree :=
  tree.makeChain path.ancestors

/-- Removes a file, or a directory with everything below it. A directory is emptied first, and
then looked up again, to be taken out of the one that holds it: if the way to it went through what
is gone by then, it stays, and so it does if it is named by dots. -/
def remove (tree : FileTree) (path : Path) : Except Fault Unit × FileTree :=
  match tree.resolve path with
  | .error cause => (.error cause, tree)
  | .ok location =>
    if tree.isDirectory path then
      let emptied := tree.put location (.directory [])
      match emptied.resolveNew path with
      | .error .notFound => (.ok (), emptied)
      | .error cause => (.error cause, emptied)
      | .ok (_, some _) => (.ok (), tree.erase location)
      | .ok (_, none) =>
        (.error
          (if path.components.getLast? = some Path.above then .notEmpty else .invalidArgument),
          emptied)
    else (.ok (), tree.erase location)

end FileTree

end HeapLatency
