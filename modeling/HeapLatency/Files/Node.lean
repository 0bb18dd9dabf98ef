import HeapLatency.Text.Utf8

/-!
# Files and directories

A node is a file with its content, or a directory with names and the nodes that they stand for.
Below a node, another one is found by the names that lead to it.
-/

namespace HeapLatency

/-- The names that lead from a directory to a place below it. -/
abbrev Location := List Bytes

/-- What stands at a place. -/
inductive Node where
  | file (content : Bytes)
  | directory (entries : List (Bytes × Node))
  deriving Repr

/-- The names in a directory with what they stand for. A name that occurs twice stands for the
first node. -/
abbrev Entries := List (Bytes × Node)

namespace Entries

def node? (name : Bytes) : Entries → Option Node
  | [] => none
  | entry :: entries => if entry.1 = name then some entry.2 else node? name entries

/-- Lets a name stand for a node, in the place that the name has or at the end. -/
def put (name : Bytes) (node : Node) : Entries → Entries
  | [] => [(name, node)]
  | entry :: entries =>
    if entry.1 = name then (name, node) :: entries else entry :: put name node entries

def erase (name : Bytes) (entries : Entries) : Entries := entries.filter fun entry => entry.1 ≠ name

theorem node?_put_self (name : Bytes) (node : Node) (entries : Entries) :
    node? name (put name node entries) = some node := by
  induction entries with
  | nil => simp [put, node?]
  | cons entry entries ih => by_cases h : entry.1 = name <;> simp [put, node?, h, ih]

theorem node?_put_of_ne {name other : Bytes} (h : other ≠ name) (node : Node)
    (entries : Entries) : node? other (put name node entries) = node? other entries := by
  induction entries with
  | nil => simp [put, node?, Ne.symm h]
  | cons entry entries ih =>
    by_cases hn : entry.1 = name
    · simp [put, node?, hn, Ne.symm h]
    · simp [put, node?, hn, ih]

end Entries

namespace Node

def content? : Node → Option Bytes
  | .file content => some content
  | .directory _ => none

def isDirectory : Node → Bool
  | .file _ => false
  | .directory _ => true

def child? (name : Bytes) : Node → Option Node
  | .file _ => none
  | .directory entries => Entries.node? name entries

def at? : Location → Node → Option Node
  | [], node => some node
  | name :: names, node => (node.child? name).bind (at? names)

/-- The node with another one put at a location below it. Directories on the way are begun where
nothing stands; below a file nothing can be put. -/
def put (new : Node) : Location → Node → Node
  | [], _ => new
  | name :: names, .directory entries =>
    .directory (Entries.put name
      (put new names ((Entries.node? name entries).getD (.directory []))) entries)
  | _ :: _, .file content => .file content

def erase : Location → Node → Node
  | [], node => node
  | [name], .directory entries => .directory (Entries.erase name entries)
  | name :: names, .directory entries =>
    match Entries.node? name entries with
    | some inner => .directory (Entries.put name (erase names inner) entries)
    | none => .directory entries
  | _ :: _, .file content => .file content

mutual

/-- The locations below a node with the content of files, each after the directory that holds
it. The node itself stands at the given location. -/
def placesBelow (location : Location) : Node → List (Location × Option Bytes)
  | .file _ => []
  | .directory entries => placesIn location entries

def placesIn (location : Location) :
    List (Bytes × Node) → List (Location × Option Bytes)
  | [] => []
  | (name, node) :: entries =>
    (location ++ [name], node.content?) ::
      (placesBelow (location ++ [name]) node ++ placesIn location entries)

end

end Node

end HeapLatency
