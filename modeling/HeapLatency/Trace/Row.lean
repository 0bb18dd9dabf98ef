import HeapLatency.Number.Decimal
import HeapLatency.Number.Spelling
import HeapLatency.Text.Quoted
import HeapLatency.Text.Split
import HeapLatency.Trace.Event

/-!
# Rows

A row holds the fields of one event between commas: operation, size, block and cycles.
Blanks around a field do not count, and fields after the fourth are ignored.
-/

namespace HeapLatency

inductive RowError where
  | tooFewFields (found : Nat)
  | size (field : List Char)
  | block (field : List Char)
  | cycles (field : List Char)
  | cyclesOutOfRange (field : List Char)
  deriving DecidableEq, Repr

namespace RowError

def message : RowError → String
  | .tooFewFields found => "expected 4 fields, found " ++ natText found
  | .size field => "non-numeric chunk size " ++ quoted field
  | .block field => "non-integer block id " ++ quoted field
  | .cycles field => "non-numeric exec time " ++ quoted field
  | .cyclesOutOfRange field => "exec time out of range " ++ quoted field

end RowError

namespace Row

def fields (row : List Char) : List (List Char) := (splitOn ',' row).map trim

/-- A decimal number of cycles without its fraction. A count past 64 bits becomes the greatest
one. -/
def parseCycles (field : List Char) : Except RowError UInt64 :=
  match Binary64.read? field with
  | none => .error (.cycles field)
  | some value =>
    if !value.trunc.isFinite || value.trunc < 0 then .error (.cyclesOutOfRange field)
    else .ok (UInt64.ofNat (value.trunc.toNatUpTo maxWord))

def parseSize (field : List Char) : Except RowError UInt64 :=
  match readNat? maxWord field with
  | none => .error (.size field)
  | some size => .ok (UInt64.ofNat size)

def parseBlock (field : List Char) : Except RowError Int :=
  match readInt? minSigned maxSigned field with
  | none => .error (.block field)
  | some block => .ok block

/-- The event of a row. The fields are checked in the order size, block, cycles. -/
def parse (row : List Char) : Except RowError Event :=
  match fields row with
  | operation :: size :: block :: cycles :: _ => do
    let size ← parseSize size
    let block ← parseBlock block
    let latency ← parseCycles cycles
    return ⟨.ofText operation, size, block, latency⟩
  | short => .error (.tooFewFields short.length)

def isRecognized (row : List Char) : Bool :=
  (fields row).head?.any Operation.isRecognized

end Row

end HeapLatency
