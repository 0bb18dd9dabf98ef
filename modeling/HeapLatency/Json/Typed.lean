import HeapLatency.Json.Read

/-!
# Reading JSON of a known form

Readers that ask for one kind of value, and records with a fixed set of fields. A record may
also be written as a list of its values in the order of the fields. Fields that nobody asks for
are skipped; one that is missing or given twice does not fit the form.
-/

namespace HeapLatency.JsonScan

/-- The fault of a value of another kind than asked for: that of the value itself if it has one.
Lists and records are refused unread. -/
def misfit : Bytes → JsonFault
  | [] => .malformed
  | b :: rest =>
    let faultOf {α : Type} : Except JsonFault α → JsonFault
      | .error fault => fault
      | .ok _ => .mismatch
    if b = byte 'n' then faultOf (readWord "ull".toList rest)
    else if b = byte 't' then faultOf (readWord "rue".toList rest)
    else if b = byte 'f' then faultOf (readWord "alse".toList rest)
    else if b = byte '-' then faultOf (readUnsigned true rest)
    else if isDigitByte b then faultOf (readUnsigned false (b :: rest))
    else if b = byte '"' then faultOf (readText rest)
    else if b = byte '[' ∨ b = byte '\x7b' then .mismatch
    else .malformed

def expectText : JsonReader String := fun bytes =>
  match skipBlanks bytes with
  | [] => .error .endOfInput
  | b :: rest =>
    if b = byte '"' then (readText rest).map fun (text, rest) => (String.ofList text, rest)
    else .error (misfit (b :: rest))

def expectNumber : JsonReader JsonNumber := fun bytes =>
  match skipBlanks bytes with
  | [] => .error .endOfInput
  | b :: rest =>
    if b = byte '-' then readUnsigned true rest
    else if isDigitByte b then readUnsigned false (b :: rest)
    else .error (misfit (b :: rest))

def expectReal : JsonReader Binary64 := fun bytes => do
  let (number, rest) ← expectNumber bytes
  return (number.toBinary64, rest)

def expectNat : JsonReader Nat := fun bytes => do
  let (number, rest) ← expectNumber bytes
  match number with
  | .whole (.ofNat value) => return (value, rest)
  | _ => throw .mismatch

def expectRealOrNull : JsonReader (Option Binary64) := fun bytes =>
  match skipBlanks bytes with
  | b :: rest =>
    if b = byte 'n' then (readWord "ull".toList rest).map fun (_, rest) => (none, rest)
    else (expectReal (b :: rest)).map fun (value, rest) => (some value, rest)
  | [] => .error .endOfInput

def expectList {α : Type} (item : JsonReader α) : JsonReader (List α) := fun bytes =>
  match skipBlanks bytes with
  | [] => .error .endOfInput
  | b :: rest =>
    if b = byte '[' then readItems item (rest.length + 1) true rest
    else .error (misfit (b :: rest))

/-- One field of a record that is read into a state. -/
structure RecordField (σ : Type) where
  name : String
  /-- A record that is written with names may leave the field out. -/
  optional : Bool
  read : JsonReader (σ → σ)

namespace RecordField

def of {σ α : Type} (name : String) (value : JsonReader α) (put : α → σ → σ) : RecordField σ where
  name
  optional := false
  read := fun bytes => (value bytes).map fun (value, rest) => (put value, rest)

end RecordField

/-- The values of a record that is written as a list, and its end. -/
def readInOrder {σ : Type} : List (RecordField σ) → Bool → σ → JsonReader σ
  | [], first, state, bytes =>
    match nextItem first bytes with
    | .ok (.finished rest) => .ok (state, rest)
    | .ok (.more _) => .error .malformed
    | .error fault => .error (if (skipBlanks bytes).isEmpty then fault else .malformed)
  | field :: fields, first, state, bytes =>
    match nextItem first bytes with
    | .error fault => .error fault
    | .ok (.finished _) => .error .mismatch
    | .ok (.more rest) => do
      let (put, rest) ← field.read rest
      readInOrder fields false (put state) rest

/-- A field of a record behind its name. The state holds the names that were there before. -/
def readNamed {σ : Type} (fields : List (RecordField σ)) (state : List String × σ)
    (name : List Char) : JsonReader (List String × σ) := fun bytes =>
  match fields.find? fun field => field.name.toList = name with
  | none => do
    let rest ← skipColon bytes
    let rest ← skipValue (rest.length + 1) rest
    return (state, rest)
  | some field =>
    if state.1.contains field.name then .error .mismatch
    else do
      let rest ← skipColon bytes
      let (put, rest) ← field.read rest
      return ((field.name :: state.1, put state.2), rest)

def expectRecord {σ : Type} (fields : List (RecordField σ)) (initial : σ) : JsonReader σ :=
  fun bytes =>
  match skipBlanks bytes with
  | [] => .error .endOfInput
  | b :: rest =>
    if b = byte '[' then readInOrder fields true initial rest
    else if b = byte '\x7b' then do
      let ((seen, state), rest) ←
        readFields (readNamed fields) (rest.length + 1) true ([], initial) rest
      if fields.all fun field => field.optional || seen.contains field.name then
        return (state, rest)
      else throw .mismatch
    else .error (misfit (b :: rest))

end HeapLatency.JsonScan
