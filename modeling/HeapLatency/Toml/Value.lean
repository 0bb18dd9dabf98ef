import HeapLatency.Number.Binary64

/-!
# TOML values

What a TOML file holds. A table remembers how it came about, since that decides whether it may
be written to again.
-/

namespace HeapLatency

inductive TableOrigin where
  | header
  /-- By being on the way of a longer header. -/
  | passed
  /-- By being on the way of a dotted key. -/
  | dotted
  | inline
  deriving DecidableEq, Repr

inductive Toml where
  | integer (value : Int)
  | real (value : Binary64)
  | bool (value : Bool)
  | string (value : List Char)
  /-- A date or a time, of which nothing more is known. -/
  | moment
  | array (items : List Toml)
  | table (origin : TableOrigin) (fields : List (List Char × Toml))
  /-- Tables that each had a header in double brackets, the last one first. -/
  | listed (reversed : List (List (List Char × Toml)))

abbrev TomlFields : Type := List (List Char × Toml)

/-- Reads the front of a text; gives a value and what follows it. -/
abbrev TomlReader (α : Type) := List Char → Option (α × List Char)

namespace Toml

def field? (name : List Char) (fields : TomlFields) : Option Toml :=
  (fields.find? fun field => field.1 = name).map (·.2)

/-- Fields with the value of a name replaced, or put at the end. -/
def setField (name : List Char) (value : Toml) : TomlFields → TomlFields
  | [] => [(name, value)]
  | field :: fields =>
    if field.1 = name then (name, value) :: fields else field :: setField name value fields

end Toml

end HeapLatency
