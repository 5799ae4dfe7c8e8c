/-
RecordQuery.Settings.File — the file that keeps the settings.

A missing file means that nothing is set. Settings are written straight into
the file, in the current version of the format.

Main definitions:
* `Settings.load`, `Settings.save`.
-/
import RecordQuery.Settings.Text
import RecordQuery.Files.Task

namespace RecordQuery.Settings

/-- The settings that a text holds, whatever its version. -/
def decode (text : String) : Except SettingsError Settings :=
  match SettingsDocument.parse? text with
  | some document => .ok document.settings
  | none => .error .malformed

/-- The settings in a file. -/
def load (path : Path) : FileTask (Except SettingsError Settings) := do
  if ← FileTask.contains path then
    match ← FileTask.readText path with
    | .ok text => pure (decode text)
    | .error fault => pure (.error (.read fault))
  else pure (.ok {})

/-- A failed change of files as an error. -/
def ofChange (fault : FileFault) : FileChange → SettingsError
  | .makeDirectories _ => .makeDirectory fault
  | _ => .write fault

/-- The directories of a file as changes to be made first. -/
def directoryChanges (path : Path) : List FileChange :=
  path.parent?.toList.map .makeDirectories

/-- The settings in the place of what a file held. The directory is made before it turns out
whether the settings can be written at all. -/
def save (settings : Settings) (path : Path) : FileTask (Except SettingsError Unit) := do
  match ← FileTask.changeAll (directoryChanges path) with
  | .error (step, fault) => pure (.error (ofChange fault step))
  | .ok () =>
    match SettingsDocument.encode ⟨currentVersion, settings⟩ with
    | .error fault => pure (.error fault)
    | .ok text =>
      match ← FileTask.changeAll [.write path text.toUTF8] with
      | .error (step, fault) => pure (.error (ofChange fault step))
      | .ok () => pure (.ok ())

end RecordQuery.Settings
