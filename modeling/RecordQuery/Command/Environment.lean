/-
RecordQuery.Command.Environment — what a command finds around it.

The places of the settings and of the dataset follow from variables of the
environment and from the home directory.

Main definitions:
* `Environment`, `Environment.home?`;
* `Environment.settingsPath?`, `Environment.dataPath?`.
-/
import RecordQuery.Files.Path
import RecordQuery.Sample.Calendar

namespace RecordQuery

/-- Variables, the home directory of the account, the clock, and a random number. -/
structure Environment where
  lookup? : String → Option String
  accountHome : Option String
  today : Date
  now : Int64
  entropy : UInt64

namespace Environment

/-- The variable that names the dataset file. -/
def dataVariable : String := "QQ_DATA"

/-- The directory below which the program keeps its files. -/
def directoryName : Path := ⟨"qq"⟩

/-- The home directory: the variable, or what the account says if that is empty. -/
def home? (environment : Environment) : Option Path :=
  match environment.lookup? "HOME" with
  | some "" | none => environment.accountHome.map Path.mk
  | some home => some ⟨home⟩

/-- Where the settings are kept. -/
def settingsPath? (environment : Environment) : Option Path :=
  let below (directory : Path) : Path := (directory.join directoryName).join ⟨"config.toml"⟩
  match environment.lookup? "QQ_CONFIG" with
  | some path => some ⟨path⟩
  | none =>
    match environment.lookup? "XDG_CONFIG_HOME" with
    | some directory => some (below ⟨directory⟩)
    | none => environment.home?.map fun home => below (home.join ⟨".config"⟩)

/-- Where the dataset is kept if nothing else is said. A relative data directory does not count. -/
def dataPath? (environment : Environment) : Option Path := do
  let home ← environment.home?
  let named := (environment.lookup? "XDG_DATA_HOME").map Path.mk
  let directory := (named.filter Path.isAbsolute).getD (home.join ⟨".local/share"⟩)
  some ((directory.join directoryName).join ⟨"dataset.json"⟩)

end Environment

end RecordQuery
