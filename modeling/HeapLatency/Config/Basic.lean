import HeapLatency.Files.Fault
import HeapLatency.Number.Spelling

/-!
# Configuration

The cutoffs above which an operation counts as slow, and the numbers that shape the bins.
A configuration is valid when its cutoffs and its rounding base are positive and finite and
every axis keeps at least one bin.
-/

namespace HeapLatency

structure Cutoffs where
  malloc : Binary64 := 2000
  free : Binary64 := 800
  deriving DecidableEq

structure Binning where
  /-- Divisions of each axis of a heat map. The end of the range is no edge, so this gives one
  bin less. -/
  heatMapBins : Nat := 40
  combinedBins : Nat := 20
  logBins : Nat := 40
  /-- Shared ranges and steps are multiples of this. -/
  roundingBase : Binary64 := 100
  deriving DecidableEq

structure Config where
  cutoffs : Cutoffs := {}
  binning : Binning := {}
  deriving DecidableEq

instance : Inhabited Config := ⟨{}⟩

inductive ConfigFault where
  | notPositive (key : String) (value : Binary64)
  | tooFew (key : String) (least found : Nat)
  deriving DecidableEq

namespace ConfigFault

def message : ConfigFault → String
  | .notPositive key value => key ++ " must be a positive number, got " ++ value.plainText
  | .tooFew key least found =>
    key ++ " must be at least " ++ natText least ++ ", got " ++ natText found

end ConfigFault

inductive ConfigError where
  | unreadable (cause : Fault)
  | malformed
  | invalid (cause : ConfigFault)
  deriving DecidableEq

namespace ConfigError

/-- The text of an error. The details of malformed text are not part of it. -/
def message : ConfigError → String
  | .unreadable cause => "Failed to read config file: " ++ cause.message
  | .malformed => "Config TOML parse error"
  | .invalid cause => "Invalid configuration: " ++ cause.message

/-- What is told as the cause of an error. The details of malformed text are a cause of their
own, of which nothing is told. -/
def causes : ConfigError → List String
  | .unreadable cause => [cause.message]
  | .malformed => [""]
  | .invalid _ => []

end ConfigError

namespace Config

def isPositive (value : Binary64) : Bool := value.isFinite && decide (0 < value)

def requirePositive (key : String) (value : Binary64) : Except ConfigFault Unit :=
  if isPositive value then .ok () else .error (.notPositive key value)

def requireAtLeast (key : String) (least found : Nat) : Except ConfigFault Unit :=
  if found < least then .error (.tooFew key least found) else .ok ()

def mallocCutoffKey : String := "malloc_cutoff_cycles"

def freeCutoffKey : String := "free_cutoff_cycles"

def heatMapBinsKey : String := "hist2d_bins"

def combinedBinsKey : String := "combined_bins"

def logBinsKey : String := "log_bins"

def roundingBaseKey : String := "rounding_base"

end Config

namespace Cutoffs

/-- Checks the malloc cutoff, then the free cutoff. -/
def validate (cutoffs : Cutoffs) : Except ConfigFault Unit := do
  Config.requirePositive Config.mallocCutoffKey cutoffs.malloc
  Config.requirePositive Config.freeCutoffKey cutoffs.free

def ofValues (malloc free : Binary64) : Except ConfigFault Cutoffs := do
  let cutoffs : Cutoffs := { malloc, free }
  cutoffs.validate
  return cutoffs

end Cutoffs

namespace Binning

def validate (binning : Binning) : Except ConfigFault Unit := do
  Config.requireAtLeast Config.heatMapBinsKey 2 binning.heatMapBins
  Config.requireAtLeast Config.combinedBinsKey 2 binning.combinedBins
  Config.requireAtLeast Config.logBinsKey 1 binning.logBins
  Config.requirePositive Config.roundingBaseKey binning.roundingBase

end Binning

namespace Config

/-- Checks the cutoffs, then the binning. -/
def validate (config : Config) : Except ConfigFault Unit := do
  config.cutoffs.validate
  config.binning.validate

/-- The configuration with the cutoffs that are given in place of its own. -/
def withCutoffs (config : Config) (malloc free : Option Binary64) : Config :=
  { config with
    cutoffs :=
      { malloc := malloc.getD config.cutoffs.malloc
        free := free.getD config.cutoffs.free } }

end Config

end HeapLatency
