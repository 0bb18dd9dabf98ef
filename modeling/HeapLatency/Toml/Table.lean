import HeapLatency.Toml.Value

/-!
# TOML tables

Writing keys and headers into tables. A key has one value. A table is defined once: under its
header, by dotted keys or as a value; a header may still define a table that longer headers
passed, and dotted keys may go on with a table that dotted keys began.
-/

namespace HeapLatency.Toml

/-- Puts the value of a dotted key into fields: the names before the last lead to its table. -/
def putDotted (name : List Char) (value : Toml) : List (List Char) → TomlFields → Option TomlFields
  | [], fields =>
    match field? name fields with
    | some _ => none
    | none => some (setField name value fields)
  | step :: path, fields =>
    match field? step fields with
    | none => do
      let inner ← putDotted name value path []
      return setField step (.table .dotted inner) fields
    | some (.table .dotted inner) => do
      let inner ← putDotted name value path inner
      return setField step (.table .dotted inner) fields
    | some (.table .passed inner) =>
      if path.isEmpty then none
      else do
        let inner ← putDotted name value path inner
        return setField step (.table .passed inner) fields
    | some (.listed (last :: others)) =>
      if path.isEmpty then none
      else do
        let last ← putDotted name value path last
        return setField step (.listed (last :: others)) fields
    | some _ => none

/-- Changes the table that names lead to from fields. Missing tables on the way are begun; in
place of several tables the last one is meant. -/
def changeAt (change : TomlFields → Option TomlFields) :
    List (List Char) → TomlFields → Option TomlFields
  | [], fields => change fields
  | step :: path, fields =>
    match field? step fields with
    | none => do
      let inner ← changeAt change path []
      return setField step (.table .passed inner) fields
    | some (.table origin inner) =>
      if origin = .inline then none
      else do
        let inner ← changeAt change path inner
        return setField step (.table origin inner) fields
    | some (.listed (last :: others)) => do
      let last ← changeAt change path last
      return setField step (.listed (last :: others)) fields
    | some _ => none

def define (name : List Char) (fields : TomlFields) : Option TomlFields :=
  match field? name fields with
  | none => some (setField name (.table .header []) fields)
  | some (.table .passed inner) => some (setField name (.table .header inner) fields)
  | some _ => none

def append (name : List Char) (fields : TomlFields) : Option TomlFields :=
  match field? name fields with
  | none => some (setField name (.listed [[]]) fields)
  | some (.listed tables) => some (setField name (.listed ([] :: tables)) fields)
  | some _ => none

inductive Line where
  | header (path : List (List Char)) (name : List Char)
  | another (path : List (List Char)) (name : List Char)
  | pair (path : List (List Char)) (name : List Char) (value : Toml)

structure Draft where
  fields : TomlFields := []
  current : List (List Char) := []

namespace Draft

def add (draft : Draft) : Line → Option Draft
  | .header path name => do
    let fields ← changeAt (define name) path draft.fields
    return { fields, current := path ++ [name] }
  | .another path name => do
    let fields ← changeAt (append name) path draft.fields
    return { fields, current := path ++ [name] }
  | .pair path name value => do
    let fields ← changeAt (putDotted name value path) draft.current draft.fields
    return { draft with fields }

end Draft

/-- The fields of a table written as a value, from its pairs in their order. -/
def inlineFields (pairs : List (List (List Char) × List Char × Toml)) : Option TomlFields :=
  pairs.foldlM (fun fields (path, name, value) => putDotted name value path fields) []

end HeapLatency.Toml
