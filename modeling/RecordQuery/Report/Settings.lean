/-
RecordQuery.Report.Settings — the settings as they are shown.

Main definitions:
* `settingsJson`, `settingsTable`;
* `assignmentJson`, `locationJson`.
-/
import RecordQuery.Settings.Basic
import RecordQuery.Json.Printer
import RecordQuery.Text.Columns

namespace RecordQuery

/-- A member of an object, if there is a value. -/
def settingMember (name : String) (value : Option Json) : List (String × Json) :=
  (value.map fun value => (name, value)).toList

/-- Settings as an object: a section holds what is set. -/
def Settings.toJson (settings : Settings) : Json :=
  .object
    [("data", .object (settingMember "path"
        (settings.dataPath.map fun path => .string path.text))),
      ("output", .object (settingMember "color" (settings.color.map .bool))),
      ("query", .object (settingMember "page_size" (settings.pageSize.map .ofNat)
        ++ settingMember "strict" (settings.strict.map .bool))),
      ("version", .ofNat currentVersion.toNat)]

/-- The settings and where they are kept, as an object. -/
def settingsJson (settings : Settings) (path : Path) (isPresent : Bool) : Json :=
  .object [("config", settings.toJson), ("exists", .bool isPresent), ("path", .string path.text)]

/-- Where the settings are kept, as an object. -/
def locationJson (path : Path) (isPresent : Bool) : Json :=
  .object [("exists", .bool isPresent), ("path", .string path.text)]

/-- A setting that was written, as an object. -/
def assignmentJson (key value : String) (path : Path) : Json :=
  .object [("key", .string key), ("path", .string path.text), ("status", .string "success"),
    ("value", .string value)]

/-- The word for a truth value. -/
def truthWord (value : Bool) : String := if value then "true" else "false"

/-- An indented line with a setting. -/
def settingLine (name value : String) : String := "  " ++ name ++ ": " ++ value ++ "\n"

/-- An indented line with a setting, if it is set. -/
def optionalLine (name : String) (value : Option String) : String :=
  (value.map (settingLine name)).getD ""

/-- The settings and where they are kept, section by section. -/
def settingsTable (colors : Bool) (settings : Settings) (path : Path) (isPresent : Bool) :
    String :=
  String.ofList (paint colors .title "Configuration".toList)
    ++ "\n\nFile: " ++ path.text ++ "\nExists: " ++ truthWord isPresent
    ++ "\n\n[query]\n" ++ settingLine "strict" (truthWord settings.isStrict)
    ++ settingLine "page_size" (String.ofList (Nat.toDigits 10 settings.effectivePageSize))
    ++ "\n[output]\n" ++ optionalLine "color" (settings.color.map truthWord)
    ++ "\n[data]\n" ++ optionalLine "path" (settings.dataPath.map Path.text)

end RecordQuery
