import HeapLatency.Number.Spelling

/-!
# File faults

Why the file system or the content of a file refused an operation.
-/

namespace HeapLatency

/-- A cause of failure when a file is opened, read or written. -/
inductive Fault where
  | notFound
  | exists
  | notDirectory
  | isDirectory
  | invalidArgument
  | nameTooLong
  | notEmpty
  | nulInName
  | invalidUtf8
  deriving DecidableEq, Repr

namespace Fault

private def numbered (text : String) (code : Nat) : String :=
  text ++ " (os error " ++ natText code ++ ")"

def message : Fault → String
  | .notFound => numbered "No such file or directory" 2
  | .exists => numbered "File exists" 17
  | .notDirectory => numbered "Not a directory" 20
  | .isDirectory => numbered "Is a directory" 21
  | .invalidArgument => numbered "Invalid argument" 22
  | .nameTooLong => numbered "File name too long" 36
  | .notEmpty => numbered "Directory not empty" 39
  | .nulInName => "file name contained an unexpected NUL byte"
  | .invalidUtf8 => "stream did not contain valid UTF-8"

end Fault

end HeapLatency
