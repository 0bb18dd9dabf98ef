import HeapLatency.Config.Basic
import HeapLatency.Files.Tree
import HeapLatency.Toml.Parse

/-!
# Loading a configuration

A configuration is a TOML file with the tables of cutoffs and of binning. What it leaves out has
its default, and what nobody asks for is ignored. A table may also be given as an array of its
values in order.
-/

namespace HeapLatency

namespace Config

def realOf? : Toml → Option Binary64
  | .integer value => some (.ofInt value)
  | .real value => some value
  | _ => none

def natOf? : Toml → Option Nat
  | .integer (.ofNat value) => some value
  | _ => none

/-- A setting of a group: its key, and how its value changes the group. -/
structure Setting (γ : Type) where
  key : String
  put : Toml → γ → Option γ

def putFields {γ : Type} (settings : List (Setting γ)) (fields : TomlFields) (group : γ) :
    Option γ :=
  settings.foldlM (fun group setting =>
    match Toml.field? setting.key.toList fields with
    | some value => setting.put value group
    | none => some group) group

def putInOrder {γ : Type} : List (Setting γ) → List Toml → γ → Option γ
  | setting :: settings, value :: values, group => do
    let group ← setting.put value group
    putInOrder settings values group
  | _, _, group => some group

/-- Changes a group by a table or an array. A moment is a table without any setting. -/
def putGroup {γ : Type} (settings : List (Setting γ)) : Toml → γ → Option γ
  | .table _ fields, group => putFields settings fields group
  | .array values, group => putInOrder settings values group
  | .moment, group => some group
  | .listed reversed, group =>
    putInOrder settings (reversed.reverse.map fun fields => .table .header fields) group
  | _, _ => none

def realSetting {γ : Type} (key : String) (put : Binary64 → γ → γ) : Setting γ where
  key
  put := fun value group => (realOf? value).map fun value => put value group

def natSetting {γ : Type} (key : String) (put : Nat → γ → γ) : Setting γ where
  key
  put := fun value group => (natOf? value).map fun value => put value group

def cutoffSettings : List (Setting Cutoffs) := [
  realSetting mallocCutoffKey fun value cutoffs => { cutoffs with malloc := value },
  realSetting freeCutoffKey fun value cutoffs => { cutoffs with free := value }]

def binningSettings : List (Setting Binning) := [
  natSetting heatMapBinsKey fun value binning => { binning with heatMapBins := value },
  natSetting combinedBinsKey fun value binning => { binning with combinedBins := value },
  natSetting logBinsKey fun value binning => { binning with logBins := value },
  realSetting roundingBaseKey fun value binning => { binning with roundingBase := value }]

def settings : List (Setting Config) := [
  ⟨"cutoffs", fun value config =>
    (putGroup cutoffSettings value config.cutoffs).map fun cutoffs => { config with cutoffs }⟩,
  ⟨"binning", fun value config =>
    (putGroup binningSettings value config.binning).map fun binning => { config with binning }⟩]

def ofText? (text : List Char) : Option Config :=
  (Toml.parse? text).bind fun fields => putFields settings fields {}

def parse (bytes : Bytes) : Except ConfigError Config :=
  match Utf8.decode? bytes with
  | none => .error (.unreadable .invalidUtf8)
  | some text =>
    match ofText? text with
    | none => .error .malformed
    | some config => (config.validate.mapError .invalid).map fun _ => config

end Config

namespace FileTree

def loadConfig (tree : FileTree) (path : Path) : Except ConfigError Config :=
  match tree.read path with
  | .error cause => .error (.unreadable cause)
  | .ok bytes => Config.parse bytes

end FileTree

end HeapLatency
