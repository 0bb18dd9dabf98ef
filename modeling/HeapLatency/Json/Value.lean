import HeapLatency.Number.Binary64

/-!
# JSON values

Data as JSON holds it. Whole numbers are kept apart from all others, and the fields of a record
keep their order.
-/

namespace HeapLatency

inductive Json where
  | null
  | bool (value : Bool)
  | integer (value : Int)
  | real (value : Binary64)
  | text (value : String)
  | list (items : List Json)
  | record (fields : List (String × Json))
  deriving Inhabited

namespace Json

def nat (value : Nat) : Json := .integer value

def texts (values : List String) : Json := .list (values.map .text)

def nats (values : List Nat) : Json := .list (values.map .nat)

def reals (values : List Binary64) : Json := .list (values.map .real)

def optional {α : Type} (toJson : α → Json) : Option α → Json
  | some value => toJson value
  | none => .null

/-- The value of the first field with a name. -/
def get? (name : String) : Json → Option Json
  | .record fields => (fields.find? fun field => field.1 = name).map (·.2)
  | _ => none

/-! ## Sorted records -/

/-- The fields with one put at its place in ascending order of names, in place of one of the
same name. -/
def insertField (field : String × Json) : List (String × Json) → List (String × Json)
  | [] => [field]
  | next :: fields =>
    if field.1 = next.1 then field :: fields
    else if field.1 < next.1 then field :: next :: fields
    else next :: insertField field fields

mutual

/-- The value with the fields of every record in ascending order of their names; of two fields
of one name the later stays. -/
def sortFields : Json → Json
  | .list items => .list (sortItems items)
  | .record fields => .record (sortRecord fields [])
  | value => value

def sortItems : List Json → List Json
  | [] => []
  | item :: items => item.sortFields :: sortItems items

def sortRecord : List (String × Json) → List (String × Json) → List (String × Json)
  | [], sorted => sorted
  | (name, value) :: fields, sorted =>
    sortRecord fields (insertField (name, value.sortFields) sorted)

end

end Json

end HeapLatency
