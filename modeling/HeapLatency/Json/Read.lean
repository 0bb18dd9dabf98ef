import HeapLatency.Json.Scan
import HeapLatency.Json.Value

/-!
# Reading JSON

Values of any kind, and the items and fields that they are made of. The first fault in the order
of the input decides.
-/

namespace HeapLatency

namespace JsonScan

/-! ## Items and fields -/

/-- Where the next part of a list or a record begins, or what follows after the last. -/
inductive Next where
  | more (rest : Bytes)
  | finished (rest : Bytes)

def nextItem (first : Bool) (bytes : Bytes) : Except JsonFault Next :=
  match skipBlanks bytes with
  | [] => .error .endOfInput
  | b :: rest =>
    if b = byte ']' then .ok (.finished rest)
    else if first then .ok (.more (b :: rest))
    else if b = byte ',' then
      match skipBlanks rest with
      | [] => .error .endOfInput
      | c :: after => if c = byte ']' then .error .malformed else .ok (.more (c :: after))
    else .error .malformed

def nextName (first : Bool) (bytes : Bytes) : Except JsonFault Next :=
  match skipBlanks bytes with
  | [] => .error .endOfInput
  | b :: rest =>
    if b = byte '\x7d' then .ok (.finished rest)
    else if first then
      if b = byte '"' then .ok (.more rest) else .error .malformed
    else if b = byte ',' then
      match skipBlanks rest with
      | [] => .error .endOfInput
      | c :: after => if c = byte '"' then .ok (.more after) else .error .malformed
    else .error .malformed

def skipColon (bytes : Bytes) : Except JsonFault Bytes :=
  match skipBlanks bytes with
  | [] => .error .endOfInput
  | b :: rest => if b = byte ':' then .ok rest else .error .malformed

/-- The items of a list after its bracket. The limit bounds their number. -/
def readItems {α : Type} (item : JsonReader α) : Nat → Bool → JsonReader (List α)
  | 0, _, _ => .error .endOfInput
  | limit + 1, first, bytes =>
    match nextItem first bytes with
    | .error fault => .error fault
    | .ok (.finished rest) => .ok ([], rest)
    | .ok (.more rest) => do
      let (value, rest) ← item rest
      let (values, rest) ← readItems item limit false rest
      return (value :: values, rest)

/-- Reads the fields of a record after its brace into a state. A field is read from behind its
name, so before its colon. The limit bounds their number. -/
def readFields {σ : Type} (field : σ → List Char → JsonReader σ) :
    Nat → Bool → σ → JsonReader σ
  | 0, _, _, _ => .error .endOfInput
  | limit + 1, first, state, bytes =>
    match nextName first bytes with
    | .error fault => .error fault
    | .ok (.finished rest) => .ok (state, rest)
    | .ok (.more rest) => do
      let (name, rest) ← readText rest
      let (state, rest) ← field state name rest
      readFields field limit false state rest

/-- Skips the fields of a record after its brace, whose names need not be text. -/
def skipFields (value : Bytes → Except JsonFault Bytes) :
    Nat → Bool → Bytes → Except JsonFault Bytes
  | 0, _, _ => .error .endOfInput
  | limit + 1, first, bytes =>
    match nextName first bytes with
    | .error fault => .error fault
    | .ok (.finished rest) => .ok rest
    | .ok (.more rest) => do
      let rest ← skipText rest
      let rest ← skipColon rest
      let rest ← value rest
      skipFields value limit false rest

/-! ## Values -/

/-- Skips a value. The limit bounds its depth. -/
def skipValue : Nat → Bytes → Except JsonFault Bytes
  | 0, _ => .error .endOfInput
  | limit + 1, bytes =>
    match skipBlanks bytes with
    | [] => .error .endOfInput
    | b :: rest =>
      if b = byte 'n' then (readWord "ull".toList rest).map (·.2)
      else if b = byte 't' then (readWord "rue".toList rest).map (·.2)
      else if b = byte 'f' then (readWord "alse".toList rest).map (·.2)
      else if b = byte '-' then skipUnsigned rest
      else if isDigitByte b then skipUnsigned (b :: rest)
      else if b = byte '"' then skipText rest
      else if b = byte '[' then
        (readItems (fun bytes => (skipValue limit bytes).map ((), ·)) (rest.length + 1) true
          rest).map (·.2)
      else if b = byte '\x7b' then skipFields (skipValue limit) (rest.length + 1) true rest
      else .error .malformed

def readValue : Nat → JsonReader Json
  | 0, _ => .error .endOfInput
  | limit + 1, bytes =>
    match skipBlanks bytes with
    | [] => .error .endOfInput
    | b :: rest =>
      if b = byte 'n' then (readWord "ull".toList rest).map fun (_, rest) => (.null, rest)
      else if b = byte 't' then
        (readWord "rue".toList rest).map fun (_, rest) => (.bool true, rest)
      else if b = byte 'f' then
        (readWord "alse".toList rest).map fun (_, rest) => (.bool false, rest)
      else if b = byte '-' ∨ isDigitByte b then do
        let negative := b = byte '-'
        let (number, rest) ← readUnsigned negative (if negative then rest else b :: rest)
        match number with
        | .whole value => return (.integer value, rest)
        | .real value => return (.real value, rest)
      else if b = byte '"' then
        (readText rest).map fun (text, rest) => (.text (String.ofList text), rest)
      else if b = byte '[' then
        (readItems (readValue limit) (rest.length + 1) true rest).map fun (items, rest) =>
          (.list items, rest)
      else if b = byte '\x7b' then
        let field (fields : List (String × Json)) (name : List Char) :
            JsonReader (List (String × Json)) := fun bytes => do
          let rest ← skipColon bytes
          let (value, rest) ← readValue limit rest
          return ((String.ofList name, value) :: fields, rest)
        (readFields field (rest.length + 1) true [] rest).map fun (fields, rest) =>
          (.record fields.reverse, rest)
      else .error .malformed

def readAll {α : Type} (reader : JsonReader α) (bytes : Bytes) : Except JsonFault α := do
  let (value, rest) ← reader bytes
  if (skipBlanks rest).isEmpty then return value else throw .malformed

end JsonScan

namespace Json

def parse (bytes : Bytes) : Except JsonFault Json :=
  JsonScan.readAll (JsonScan.readValue (bytes.length + 1)) bytes

end Json

end HeapLatency
