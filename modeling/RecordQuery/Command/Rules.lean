/-
RecordQuery.Command.Rules — the commands and their options.

A command has options, arguments that stand for themselves, and perhaps
commands below it. Some options are known to every command.

Main definitions:
* `ValueKind`, `OptionRule`, `CommandRule`;
* `CommandName`, `CommandName.rule`.
-/
import RecordQuery.Text.Natural

namespace RecordQuery

/-- What a value on the command line has to be. -/
inductive ValueKind where
  | text
  | path
  | natural
  | oneOf (words : List String)
  deriving DecidableEq

/-- The value is of the kind. -/
def ValueKind.accepts : ValueKind → String → Bool
  | .text, _ => true
  | .path, value => !value.isEmpty
  | .natural, value => (readNatural? value).isSome
  | .oneOf words, value => words.contains value

/-- What an option does. -/
inductive OptionEffect where
  | flag
  | value (kind : ValueKind)
  | help
  | version
  deriving DecidableEq

/-- An option: its name, perhaps a letter that stands for it, and what it does. -/
structure OptionRule where
  name : String
  letter : Option Char
  effect : OptionEffect
  deriving DecidableEq

/-- The commands. -/
inductive CommandName where
  | top
  | seed
  | query
  | explain
  | fields
  | config
  | configShow
  | configSet
  | configPath
  | completions
  deriving DecidableEq

/-- What a command accepts. -/
structure CommandRule where
  words : List String
  summary : String
  options : List OptionRule := []
  positionals : List (String × ValueKind) := []
  required : List String := []
  conflicts : List (String × String) := []
  subcommands : List CommandName := []

namespace CommandName

/-- The options of every command. -/
def sharedOptions : List OptionRule :=
  [⟨"verbose", some 'v', .flag⟩, ⟨"quiet", some 'q', .flag⟩, ⟨"json", none, .flag⟩,
    ⟨"no-color", none, .flag⟩, ⟨"data", none, .value .path⟩, ⟨"help", some 'h', .help⟩,
    ⟨"version", some 'V', .version⟩]

/-- Options of every command that exclude each other. -/
def sharedConflicts : List (String × String) := [("quiet", "verbose")]

/-- The table that a command works on. -/
def tableOption : OptionRule := ⟨"table", some 't', .value .text⟩

/-- The shells for which completions are written. -/
def shells : List String := ["bash", "zsh", "fish", "powershell"]

/-- What a command accepts beside the shared options. -/
def ownRule : CommandName → CommandRule
  | .top =>
    { words := ["qq"], summary := "Query Quest, filter local game data with query-builder JSON",
      subcommands := [.seed, .query, .explain, .fields, .config, .completions] }
  | .seed =>
    { words := ["seed"], summary := "Generate sample players, games, scores and achievements",
      options := [⟨"count", none, .value .natural⟩, ⟨"seed", none, .value .natural⟩,
        ⟨"force", some 'f', .flag⟩] }
  | .query =>
    { words := ["query", "q"], summary := "Run a filtered, paginated query",
      options := [tableOption, ⟨"query", none, .value .text⟩,
        ⟨"query-file", none, .value .path⟩, ⟨"fields", none, .value .text⟩,
        ⟨"fields-file", none, .value .path⟩, ⟨"num-items", some 'n', .value .natural⟩,
        ⟨"cursor", none, .value .text⟩, ⟨"all", none, .flag⟩, ⟨"strict", none, .flag⟩],
      conflicts := [("query", "query-file"), ("fields", "fields-file"), ("cursor", "all")] }
  | .explain =>
    { words := ["explain"], summary := "Show how a query is interpreted",
      options := [⟨"query", none, .value .text⟩, ⟨"fields", none, .value .text⟩, tableOption],
      required := ["query"] }
  | .fields =>
    { words := ["fields"], summary := "Print a table's built-in field catalog as JSON",
      options := [tableOption] }
  | .config =>
    { words := ["config"], summary := "View or edit configuration",
      subcommands := [.configShow, .configSet, .configPath] }
  | .configShow => { words := ["show"], summary := "Show current configuration" }
  | .configSet =>
    { words := ["set"], summary := "Set a configuration value",
      positionals := [("KEY", .text), ("VALUE", .text)] }
  | .configPath => { words := ["path"], summary := "Print config file path" }
  | .completions =>
    { words := ["completions"], summary := "Generate shell completions",
      positionals := [("SHELL", .oneOf shells)] }

/-- What a command accepts. -/
def rule (name : CommandName) : CommandRule :=
  let own := name.ownRule
  { own with options := own.options ++ sharedOptions, conflicts := own.conflicts ++ sharedConflicts }

/-- The command below another that a word names. -/
def subcommand? (name : CommandName) (word : String) : Option CommandName :=
  name.rule.subcommands.find? fun below => below.rule.words.contains word

/-- The first word of a command. -/
def word (name : CommandName) : String := name.rule.words.headD ""

/-- A command and those above it, from the top. -/
def path : CommandName → List CommandName
  | .top => [.top]
  | .seed => [.top, .seed]
  | .query => [.top, .query]
  | .explain => [.top, .explain]
  | .fields => [.top, .fields]
  | .config => [.top, .config]
  | .configShow => [.top, .config, .configShow]
  | .configSet => [.top, .config, .configSet]
  | .configPath => [.top, .config, .configPath]
  | .completions => [.top, .completions]

end CommandName

end RecordQuery
