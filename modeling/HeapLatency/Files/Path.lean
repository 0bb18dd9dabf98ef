import HeapLatency.Text.Split

/-!
# Paths

A path is a byte string that names a place among files. Its components stand between slashes;
empty ones do not count, and a path that begins with a slash starts at the root. Shown as text,
bytes that are no text become replacement characters.
-/

namespace HeapLatency

/-- A path as it was given. -/
structure Path where
  bytes : Bytes
  deriving DecidableEq, Repr

namespace Path

def slash : UInt8 := 0x2F

def here : Bytes := [0x2E]

def above : Bytes := [0x2E, 0x2E]

def ofText (text : String) : Path := ⟨bytesOf text⟩

instance : Inhabited Path := ⟨⟨[]⟩⟩

def isEmpty (path : Path) : Bool := path.bytes.isEmpty

def isAbsolute (path : Path) : Bool := path.bytes.head? == some slash

def endsInSlash (path : Path) : Bool := path.bytes.getLast? == some slash

def components (path : Path) : List Bytes :=
  (splitOn slash path.bytes).filter fun component => !component.isEmpty

def text (path : Path) : String := String.ofList (Utf8.decodeLenient path.bytes)

/-- The last component apart from those that stay where they are, unless it leads upwards. -/
def fileName? (path : Path) : Option Bytes :=
  ((path.components.filter (· ≠ here)).getLast?).filter (· ≠ above)

/-- The file name as text, or the whole path if it has none. -/
def displayName (path : Path) : String :=
  match path.fileName? with
  | some name => String.ofList (Utf8.decodeLenient name)
  | none => path.text

/-- A relative path as seen from a directory. An absolute path stays as it is. -/
def join (directory path : Path) : Path :=
  if path.isAbsolute || directory.isEmpty then path
  else if directory.endsInSlash then ⟨directory.bytes ++ path.bytes⟩
  else ⟨directory.bytes ++ slash :: path.bytes⟩

/-! ## The path above -/

/-- Bytes at the front that are no component to be taken off: a slash at the root, or a single
dot in front of one. -/
def anchorLength (bytes : Bytes) : Nat :=
  match bytes with
  | [] => 0
  | first :: rest =>
    if first = slash then 1
    else if [first] = here ∧ (rest.isEmpty ∨ rest.head? = some slash) then 1
    else 0

/-- The last component after the first `anchor` bytes, and its length with the slash before it. -/
def lastComponent (anchor : Nat) (bytes : Bytes) : Bytes × Nat :=
  let tail := bytes.drop anchor
  let component := (tail.reverse.takeWhile (· ≠ slash)).reverse
  (component, component.length + if tail.contains slash then 1 else 0)

/-- Takes empty components and single dots off the end; the length of the bytes bounds their
number. -/
def trimEnd : Nat → Bytes → Bytes
  | 0, bytes => bytes
  | limit + 1, bytes =>
    let anchor := anchorLength bytes
    if bytes.length ≤ anchor then bytes
    else
      let (component, length) := lastComponent anchor bytes
      if component.isEmpty ∨ component = here then
        trimEnd limit (bytes.take (bytes.length - length))
      else bytes

/-- The path without its last component; a root and an empty path have none. -/
def parent? (path : Path) : Option Path :=
  let bytes := trimEnd path.bytes.length path.bytes
  let anchor := anchorLength bytes
  if anchor < bytes.length then
    let above := bytes.take (bytes.length - (lastComponent anchor bytes).2)
    some ⟨trimEnd above.length above⟩
  else if bytes.head? = some slash ∨ bytes.isEmpty then none
  else some ⟨[]⟩

def ancestorsUpTo : Nat → Path → List Path
  | 0, _ => []
  | limit + 1, path =>
    path ::
      match path.parent? with
      | some parent => ancestorsUpTo limit parent
      | none => []

def ancestors (path : Path) : List Path := ancestorsUpTo (path.bytes.length + 1) path

end Path

end HeapLatency
