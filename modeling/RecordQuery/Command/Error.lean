/-
RecordQuery.Command.Error — why a command fails.

Every error has a message, a code for programs that read the output, and an
exit status.

Main definitions:
* `InputError`, `CommandError`;
* `CommandError.message`, `CommandError.code`, `CommandError.exitStatus`.
-/
import RecordQuery.Request
import RecordQuery.Store
import RecordQuery.Settings.Basic

namespace RecordQuery

/-- The inputs of a query that may stand in files. -/
inductive InputKind where
  | query
  | fields
  deriving DecidableEq

def InputKind.word : InputKind → String
  | .query => "query"
  | .fields => "fields"

/-- Why the input of a command is refused. -/
inductive InputError where
  | unknownTable (table : String)
  | unreadable (kind : InputKind) (path : Path) (fault : FileFault)
  | datasetExists (path : Path)
  deriving DecidableEq

def InputError.message : InputError → String
  | .unknownTable table => Schema.unknownTableMessage table
  | .unreadable kind path fault =>
    faultMessage ("Failed to read " ++ kind.word ++ " file") path fault
  | .datasetExists path =>
    "dataset already exists at " ++ path.text ++ ". Use --force to overwrite"

/-- Why a command fails. -/
inductive CommandError where
  | query (error : QueryError)
  | page (error : PageError)
  | store (error : StoreError)
  | input (error : InputError)
  | settings (error : SettingsError)
  deriving DecidableEq

namespace CommandError

def message : CommandError → String
  | .query error => "query error: " ++ error.message
  | .page error => "pagination error: " ++ error.message
  | .store error => "data error: " ++ error.message
  | .input error => error.message
  | .settings error => "configuration error: " ++ error.message

/-- The kind of error as a word. -/
def code : CommandError → String
  | .query _ => "QUERY_ERROR"
  | .page _ => "CURSOR_ERROR"
  | .store _ => "DATA_ERROR"
  | .input _ => "INPUT_ERROR"
  | .settings _ => "CONFIG_ERROR"

/-- The exit status of a command that fails. -/
def exitStatus : CommandError → UInt32
  | .query _ => 1
  | .page _ | .input _ => 2
  | .store _ => 4
  | .settings _ => 5

/-- A request that has no answer, as an error of a command. -/
def ofRequest : RequestError → CommandError
  | .query error => .query error
  | .unknownTable table => .input (.unknownTable table)
  | .page error => .page error

/-- The error as an object. -/
def toJson (error : CommandError) : Json :=
  .object [("error", .object [("code", .string error.code), ("message", .string error.message)])]

end CommandError

/-- The fields of a built-in table. -/
def builtInCatalog (table : String) : Except CommandError Catalog :=
  match Schema.catalogOf? table with
  | some catalog => .ok catalog
  | none => .error (.input (.unknownTable table))

end RecordQuery
