/-
RecordQuery.Command.Invocation — what a command line asks for.

The shared options may be given on every level; a flag counts if any level has
it, and the innermost value counts. The dataset file may also be named by a
variable of the environment.

Main definitions:
* `SharedOptions`, `QueryOptions`, `Command`;
* `Invocation`, `Invocation.read`.
-/
import RecordQuery.Command.Arguments
import RecordQuery.Command.Environment
import RecordQuery.Sample.Dataset

namespace RecordQuery

/-- Options that every command has. -/
structure SharedOptions where
  verbose : Bool
  quiet : Bool
  json : Bool
  noColor : Bool
  data : Option Path
  deriving DecidableEq

/-- Options of a query. -/
structure QueryOptions where
  table : String
  query : Option String
  queryFile : Option Path
  fields : Option String
  fieldsFile : Option Path
  size : Option Nat
  cursor : Option String
  all : Bool
  strict : Bool
  deriving DecidableEq

/-- What is to be done. -/
inductive Command where
  | seed (count : Nat) (seed : Option UInt64) (force : Bool)
  | query (options : QueryOptions)
  | explain (query : String) (fields : Option String) (table : String)
  | fields (table : String)
  | showSettings
  | setSetting (key value : String)
  | settingsPath
  | completions (shell : String)
  | greeting
  deriving DecidableEq

/-- A command and the shared options. -/
structure Invocation where
  shared : SharedOptions
  command : Command
  deriving DecidableEq

namespace Invocation

/-- The table where none is named. -/
def defaultTable : String := Schema.players

/-- What the innermost level asks for. -/
def commandOf (level : Level) : Command :=
  let number (name : String) : Option Nat := (level.value? name).bind readNatural?
  let path (name : String) : Option Path := (level.value? name).map Path.mk
  let table := (level.value? "table").getD defaultTable
  match level.command, level.positionals with
  | .seed, _ =>
    .seed ((number "count").getD Sample.defaultCount) ((number "seed").map UInt64.ofNat)
      (level.has "force")
  | .query, _ =>
    .query ⟨table, level.value? "query", path "query-file", level.value? "fields",
      path "fields-file", number "num-items", level.value? "cursor", level.has "all",
      level.has "strict"⟩
  | .explain, _ => .explain ((level.value? "query").getD "") (level.value? "fields") table
  | .fields, _ => .fields table
  | .config, _ | .configShow, _ => .showSettings
  | .configSet, [key, value] => .setSetting key value
  | .configPath, _ => .settingsPath
  | .completions, [shell] => .completions shell
  | _, _ => .greeting

/-- The shared options of levels, the innermost first. -/
def sharedOptions (levels : List Level) (fallback : Option String) : SharedOptions :=
  let has (name : String) : Bool := levels.any fun level => level.has name
  let data := (levels.findSome? fun level => level.value? "data").or fallback
  ⟨has "verbose", has "quiet", has "json", has "no-color", data.map Path.mk⟩

/-- A level takes the variable that names the dataset file if it has no such option. An empty one
is refused. -/
def acceptsVariable (data : Option String) (level : Level) : Bool :=
  level.has "data" || data ≠ some ""

/-- What arguments ask for. -/
def read (environment : Environment) (arguments : List String) : Except Refusal Invocation := do
  let levels ← readLevels arguments
  let fallback := environment.lookup? Environment.dataVariable
  match levels with
  | [] => .error .rejected
  | innermost :: _ =>
    if levels.all (acceptsVariable fallback) then
      .ok ⟨sharedOptions levels fallback, commandOf innermost⟩
    else .error .rejected

end Invocation

end RecordQuery
