/-!
# Notices

Lines that a step tells its operator about its own work, apart from its result.
-/

namespace HeapLatency

inductive Level where
  | debug
  | info
  | warn
  deriving DecidableEq, Repr

structure Notice where
  level : Level
  text : String
  deriving DecidableEq, Repr

namespace Level

def name : Level → String
  | .debug => "DEBUG"
  | .info => "INFO"
  | .warn => "WARN"

end Level

namespace Notice

def line (notice : Notice) : String := notice.level.name ++ " " ++ notice.text

end Notice

end HeapLatency
