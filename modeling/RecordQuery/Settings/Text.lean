/-
RecordQuery.Settings.Text — settings as a TOML document.

A document has a version and three sections. A section is a table, or a list
that gives its settings by position; what is left out is not set, and entries
with other names are not looked at.

Main definitions:
* `SettingsDocument`, `SettingsDocument.parse?`;
* `SettingsDocument.encode`.
-/
import RecordQuery.Settings.Basic
import RecordQuery.Toml.Document
import RecordQuery.Toml.Quoted

namespace RecordQuery

/-- Settings and the version of the format in which they are written. -/
structure SettingsDocument where
  version : UInt32
  settings : Settings
  deriving DecidableEq

namespace SettingsDocument

/-! ## Reading -/

/-- The values of a section in the order of the given names. A list gives every value by position;
a date has no values. -/
def sectionValues (names : List String) : Option Toml → Option (List (Option Toml))
  | none => some (names.map fun _ => none)
  | some (.table _ entries) | some (.inline _ entries) =>
    some (names.map fun name => Toml.Entries.get? entries name)
  | some (.array items) =>
    if items.length < names.length then none else some ((items.take names.length).map some)
  | some (.moment _) => some (names.map fun _ => none)
  | some _ => none

/-- A truth value that may be left out. -/
def readBoolean : Option Toml → Option (Option Bool)
  | none => some none
  | some (.boolean value) => some (some value)
  | some _ => none

/-- A count that may be left out. -/
def readCount : Option Toml → Option (Option Nat)
  | none => some none
  | some (.integer value) => if 0 ≤ value then some (some value.toNat) else none
  | some _ => none

/-- A path that may be left out. -/
def readPath : Option Toml → Option (Option Path)
  | none => some none
  | some (.text value) => some (some ⟨value⟩)
  | some _ => none

/-- A version, the current one if it is left out. -/
def readVersion : Option Toml → Option UInt32
  | none => some Settings.currentVersion
  | some (.integer value) =>
    if 0 ≤ value ∧ value ≤ 4294967295 then some (.ofInt value) else none
  | some _ => none

/-- The settings in the entries of a document. -/
def ofEntries? (entries : Toml.Entries) : Option SettingsDocument := do
  let version ← readVersion (entries.get? "version")
  match ← sectionValues ["strict", "page_size"] (entries.get? "query"),
      ← sectionValues ["color"] (entries.get? "output"),
      ← sectionValues ["path"] (entries.get? "data") with
  | [strict, pageSize], [color], [path] =>
    let strict ← readBoolean strict
    let pageSize ← readCount pageSize
    let color ← readBoolean color
    let path ← readPath path
    some ⟨version, ⟨strict, pageSize, color, path⟩⟩
  | _, _, _ => none

/-- The settings that a text holds. -/
def parse? (text : String) : Option SettingsDocument := (Toml.parse? text).bind ofEntries?

/-! ## Writing -/

/-- The largest integer of a document. -/
def integerLimit : Nat := 9223372036854775807

/-- A line of a section, if there is a value. -/
def line (name : String) (value : Option (List Char)) : List Char :=
  match value with
  | some value => name.toList ++ " = ".toList ++ value ++ ['\n']
  | none => []

/-- A truth value as it is written. -/
def booleanChars (value : Bool) : List Char := (if value then "true" else "false").toList

/-- The characters of a document. -/
def chars (document : SettingsDocument) : List Char :=
  let settings := document.settings
  line "version" (some (Nat.toDigits 10 document.version.toNat))
    ++ "\n[query]\n".toList
    ++ line "strict" (settings.strict.map booleanChars)
    ++ line "page_size" (settings.pageSize.map (Nat.toDigits 10))
    ++ "\n[output]\n".toList
    ++ line "color" (settings.color.map booleanChars)
    ++ "\n[data]\n".toList
    ++ line "path" (settings.dataPath.map fun path => Toml.quoted path.text.toList)

/-- The text of a document. A page size beyond the largest integer cannot be written. -/
def encode (document : SettingsDocument) : Except SettingsError String :=
  if integerLimit < document.settings.pageSize.getD 0 then .error .pageSizeTooLarge
  else .ok (String.ofList document.chars)

end SettingsDocument

end RecordQuery
