/-
RecordQuery.Command.Run — commands at work.

A command line is turned into a task on files whose result is what the program
prints and its exit status. The settings are read before any command, so broken
settings stop all of them.

Main definitions:
* `Reply`, `Context`;
* `Command.run`, `runCommandLine`.
-/
import RecordQuery.Command.Error
import RecordQuery.Command.Invocation
import RecordQuery.Command.Manual
import RecordQuery.Report.Explanation
import RecordQuery.Report.Records
import RecordQuery.Report.Seeding
import RecordQuery.Report.Settings
import RecordQuery.Settings.File

namespace RecordQuery

/-! ## Replies -/

/-- What a program prints, and its exit status. -/
structure Reply where
  exit : UInt32 := 0
  output : String := ""
  errors : String := ""
  deriving DecidableEq, Inhabited

namespace Reply

/-- A reply of some output. -/
def printed (output : String) : Reply := { output := output }

/-- The reply with a note before its errors. -/
def noted (reply : Reply) (note : String) : Reply := { reply with errors := note ++ reply.errors }

/-- The reply of a command that fails. -/
def failed (json : Bool) (error : CommandError) : Reply :=
  { exit := error.exitStatus,
    errors := if json then error.toJson.pretty ++ "\n" else "Error: " ++ error.message ++ "\n" }

/-- The reply to arguments that ask for no command. -/
def refused : Refusal → Reply
  | .rejected => { exit := 2, errors := rejectionText }
  | .help command => printed command.manual
  | .version command => printed command.versionLine

end Reply

/-- How results are shown. -/
structure Context where
  json : Bool
  colors : Bool
  quiet : Bool
  verbose : Bool
  deriving DecidableEq

namespace Context

/-- How results are shown under the options, the settings and the environment. -/
def of (environment : Environment) (settings : Settings) (shared : SharedOptions) : Context :=
  { json := shared.json,
    colors := !shared.noColor && (environment.lookup? "NO_COLOR").isNone
      && settings.color.getD true,
    quiet := shared.quiet, verbose := shared.verbose }

/-- A result as an object, or for people, who may want to see nothing. -/
def shown (context : Context) (json : Json) (text : String) : Reply :=
  if context.json then .printed (json.pretty ++ "\n")
  else if context.quiet then {}
  else .printed text

/-- The reply of a command that fails. -/
def failed (context : Context) (error : CommandError) : Reply := .failed context.json error

/-- A note for those who want to know more. -/
def note (context : Context) (text : String) : String := if context.verbose then text else ""

end Context

/-! ## Commands on the dataset -/

/-- New sample data in the file of a store. A file that is there is replaced only by force. -/
def runSeed (environment : Environment) (context : Context) (store : Store) (count : Nat)
    (seed : Option UInt64) (force : Bool) : FileTask Reply := do
  let isPresent ← store.isPresent
  if isPresent && !force then
    pure (context.failed (.input (.datasetExists store.path)))
  else
    let dataset := sampleDataset
      ⟨count, seed.getD environment.entropy, environment.today, environment.now⟩
    let reply := match ← store.saveAsync dataset with
      | .ok () => context.shown (seedingJson dataset store.path)
          (seedingTable context.colors dataset store.path)
      | .error error => context.failed (.store error)
    pure (reply.noted (context.note
      ("Generating " ++ Nat.repr count ++ " records per table...\n")))

/-- A text that is given, or that stands in a file. -/
def readInput (kind : InputKind) (text : Option String) (path : Option Path) :
    FileTask (Except CommandError (Option String)) := do
  match text, path with
  | none, some path =>
    match ← FileTask.readText path with
    | .ok text => pure (.ok (some text))
    | .error fault => pure (.error (.input (.unreadable kind path fault)))
  | text, _ => pure (.ok text)

/-- The filter arguments of a query. -/
def readArguments (options : QueryOptions) :
    FileTask (Except CommandError FilterArguments) := do
  match ← readInput .query options.query options.queryFile with
  | .error error => pure (.error error)
  | .ok query =>
    match ← readInput .fields options.fields options.fieldsFile with
    | .error error => pure (.error error)
    | .ok fields => pure (.ok (.forTable options.table query fields))

/-- The records of a query as they are shown. -/
def queryReply (context : Context) (table : String) (arguments : FilterArguments)
    (fetched : Fetched) : Reply :=
  match Catalog.parse arguments.fields with
  | .error error => context.failed (.query error)
  | .ok catalog =>
    context.shown (recordsJson table fetched.records fetched.isDone fetched.next)
      (recordsTable context.colors catalog fetched.records
        ++ pageFooter context.colors fetched.records.length fetched.isDone fetched.next)

/-- The records of a table that a query keeps. Nothing if their pages never end. -/
def runQuery (context : Context) (settings : Settings) (store : Store) (options : QueryOptions) :
    FileTask (Option Reply) := do
  match ← readArguments options with
  | .error error => pure (some (context.failed error))
  | .ok arguments =>
    match ← store.loadOrEmptyAsync with
    | .error error => pure (some (context.failed (.store error)))
    | .ok dataset =>
      let note := if dataset.isEmpty then
          context.note ("Dataset at " ++ store.path.text
            ++ " is empty. Run 'qq seed' to generate sample data.\n")
        else ""
      let fetched := dataset.fetch? options.table arguments
        (options.size.getD settings.effectivePageSize) options.cursor options.all
        (options.strict || settings.isStrict)
      pure (fetched.map fun result =>
        let reply := match result with
          | .ok fetched => queryReply context options.table arguments fetched
          | .error error => context.failed (.ofRequest error)
        reply.noted note)

/-! ## Commands without dataset -/

/-- How a query will be understood. -/
def explainReply (context : Context) (query : String) (fields : Option String) (table : String) :
    Reply :=
  let explanation : Except CommandError Explanation := do
    let query ← (Query.parse query).mapError .query
    let catalog ← match fields with
      | some fields => (Catalog.parse fields).mapError .query
      | none => builtInCatalog table
    .ok (explain catalog query)
  match explanation with
  | .ok explanation =>
    context.shown explanation.toJson (explanation.table context.colors)
  | .error error => context.failed error

/-- The fields of a built-in table, which are an object in any case. -/
def fieldsReply (context : Context) (table : String) : Reply :=
  match builtInCatalog table with
  | .ok catalog =>
    let text := catalog.toJson.pretty ++ "\n"
    if context.quiet && !context.json then {} else .printed text
  | .error error => context.failed error

/-- The settings and where they are kept. -/
def runShowSettings (context : Context) (settings : Settings) (path : Path) : FileTask Reply := do
  let isPresent ← FileTask.contains path
  pure (context.shown (settingsJson settings path isPresent)
    (settingsTable context.colors settings path isPresent))

/-- One setting changed in the file. -/
def runSetSetting (context : Context) (settings : Settings) (path : Path) (key value : String) :
    FileTask Reply := do
  match settings.assignNamed key value with
  | .error error => pure (context.failed (.settings error))
  | .ok settings =>
    match ← settings.save path with
    | .error error => pure (context.failed (.settings error))
    | .ok () => pure (context.shown (assignmentJson key value path)
        ("Set " ++ key ++ " = " ++ value ++ "\n"))

/-- Where the settings are kept, which is printed in any case. -/
def runSettingsPath (context : Context) (path : Path) : FileTask Reply := do
  let isPresent ← FileTask.contains path
  if context.json then pure (.printed ((locationJson path isPresent).pretty ++ "\n"))
  else pure (.printed (path.text ++ "\n"))

/-- What is printed where no command is given. -/
def greetingText : String := "qq - Query Quest\nUse --help for usage information\n"

/-! ## Command lines -/

/-- The store of a command: the option counts before the settings, and these before the place that
follows from the environment. -/
def findStore (environment : Environment) (settings : Settings) (shared : SharedOptions) :
    Except CommandError Store :=
  match (shared.data.or settings.dataPath).or environment.dataPath? with
  | some path => .ok ⟨path⟩
  | none => .error (.store .noHome)

/-- A command under settings that were read from a path. -/
def Command.run (environment : Environment) (context : Context) (settings : Settings)
    (path : Path) (store : Except CommandError Store) : Command → FileTask (Option Reply)
  | .seed count start force =>
    match store with
    | .ok store => some <$> runSeed environment context store count start force
    | .error error => pure (some (context.failed error))
  | .query options =>
    match store with
    | .ok store => runQuery context settings store options
    | .error error => pure (some (context.failed error))
  | .explain text catalog table => pure (some (explainReply context text catalog table))
  | .fields table => pure (some (fieldsReply context table))
  | .showSettings => some <$> runShowSettings context settings path
  | .setSetting key value => some <$> runSetSetting context settings path key value
  | .settingsPath => some <$> runSettingsPath context path
  | .completions shell => pure (some (.printed (completionScript shell)))
  | .greeting => pure (some (if context.quiet then {} else .printed greetingText))

/-- What the program does for its arguments. Nothing is the result of a query without end. -/
def runCommandLine (environment : Environment) (arguments : List String) :
    FileTask (Option Reply) := do
  match Invocation.read environment arguments with
  | .error refusal => pure (some (.refused refusal))
  | .ok invocation =>
    let fail (error : SettingsError) : Reply := .failed invocation.shared.json (.settings error)
    match environment.settingsPath? with
    | none => pure (some (fail .noDirectory))
    | some path =>
      match ← Settings.load path with
      | .error error => pure (some (fail error))
      | .ok settings =>
        invocation.command.run environment (.of environment settings invocation.shared) settings
          path (findStore environment settings invocation.shared)

end RecordQuery
