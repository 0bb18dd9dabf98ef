/-!
# Events

One heap operation of a trace: what was done, the size of the chunk, the block it concerns and
how long it took.
-/

namespace HeapLatency

inductive Operation where
  | malloc
  | free
  deriving DecidableEq, Repr

namespace Operation

def all : List Operation := [malloc, free]

def name : Operation → String
  | .malloc => "malloc"
  | .free => "free"

/-- The operation that a text stands for. Only the exact word is an allocation; every other
text, known or not, is a free. -/
def ofText (text : List Char) : Operation :=
  if text = malloc.name.toList then .malloc else .free

def isRecognized (text : List Char) : Bool :=
  all.any fun operation => text == operation.name.toList

end Operation

/-- One event of a trace. -/
structure Event where
  operation : Operation
  size : UInt64
  block : Int
  latency : UInt64
  deriving DecidableEq, Repr

end HeapLatency
