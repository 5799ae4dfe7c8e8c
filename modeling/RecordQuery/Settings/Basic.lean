/-
RecordQuery.Settings.Basic — the settings of a user.

Four settings may be given, and each has a key made of a section and a name.
What is not given has a default where it is used.

Main definitions:
* `Settings`, `SettingKey`, `SettingsError`;
* `readSwitch?`, `Settings.assign`.
-/
import RecordQuery.Files.Basic
import RecordQuery.Text.Natural

namespace RecordQuery

/-- What a user has set. -/
structure Settings where
  strict : Option Bool := none
  pageSize : Option Nat := none
  color : Option Bool := none
  dataPath : Option Path := none
  deriving DecidableEq, Inhabited

namespace Settings

/-- The version of the file format. -/
def currentVersion : UInt32 := 1

/-- The page size where none is set. -/
def defaultPageSize : Nat := 51

/-- The page size that counts. -/
def effectivePageSize (settings : Settings) : Nat := settings.pageSize.getD defaultPageSize

/-- Whether unknown operators and combinators are refused. -/
def isStrict (settings : Settings) : Bool := settings.strict.getD false

end Settings

/-- The settings that can be given. -/
inductive SettingKey where
  | strict
  | pageSize
  | color
  | dataPath
  deriving DecidableEq

namespace SettingKey

/-- All keys in the order in which they are told. -/
def all : List SettingKey := [.strict, .pageSize, .color, .dataPath]

/-- The section and the name of a setting. -/
def name : SettingKey → String
  | .strict => "query.strict"
  | .pageSize => "query.page_size"
  | .color => "output.color"
  | .dataPath => "data.path"

/-- The key of a name. -/
def ofName? (name : String) : Option SettingKey := all.find? fun key => key.name = name

end SettingKey

/-- Why settings could not be read, changed or written. -/
inductive SettingsError where
  | noDirectory
  | read (fault : FileFault)
  | malformed
  | invalidSwitch (value : String)
  | invalidPageSize (value : String)
  | unknownKey (key : String)
  | makeDirectory (fault : FileFault)
  | pageSizeTooLarge
  | write (fault : FileFault)
  deriving DecidableEq

def SettingsError.message : SettingsError → String
  | .noDirectory => "Could not determine config directory"
  | .read fault => "Failed to read config: " ++ fault.message
  | .malformed => "Failed to parse config: no valid settings"
  | .invalidSwitch value =>
    "Invalid boolean value '" ++ value ++ "'. Use true/false, yes/no, 1/0, or on/off"
  | .invalidPageSize value => "Invalid page_size value '" ++ value ++ "'. Use a positive integer"
  | .unknownKey key =>
    "Unknown config key '" ++ key ++ "'. Valid keys: "
      ++ ", ".intercalate (SettingKey.all.map SettingKey.name)
  | .makeDirectory fault => "Failed to create config directory: " ++ fault.message
  | .pageSizeTooLarge => "Failed to serialize config: out-of-range value for u64 type"
  | .write fault => "Failed to write config: " ++ fault.message

/-- Words for on and off, in any letter case. -/
def readSwitch? (text : String) : Option Bool :=
  let word := String.ofList (text.toList.map Char.toLower)
  if word ∈ ["true", "yes", "1", "on"] then some true
  else if word ∈ ["false", "no", "0", "off"] then some false
  else none

namespace Settings

/-- A switch, or an error that shows the text. -/
def readSwitch (text : String) : Except SettingsError Bool :=
  match readSwitch? text with
  | some value => .ok value
  | none => .error (.invalidSwitch text)

/-- A page size, which is positive. -/
def readPageSize (text : String) : Except SettingsError Nat :=
  match readNatural? text with
  | none => .error (.invalidPageSize text)
  | some 0 => .error (.invalidPageSize "0")
  | some size => .ok size

/-- The settings with one of them read from a text. -/
def assign (settings : Settings) (key : SettingKey) (text : String) :
    Except SettingsError Settings :=
  match key with
  | .strict => (readSwitch text).map fun value => { settings with strict := some value }
  | .pageSize => (readPageSize text).map fun size => { settings with pageSize := some size }
  | .color => (readSwitch text).map fun value => { settings with color := some value }
  | .dataPath => .ok { settings with dataPath := some ⟨text⟩ }

/-- The settings with the one of a name read from a text. -/
def assignNamed (settings : Settings) (name text : String) : Except SettingsError Settings :=
  match SettingKey.ofName? name with
  | some key => settings.assign key text
  | none => .error (.unknownKey name)

end Settings

end RecordQuery
