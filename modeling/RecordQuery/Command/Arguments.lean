/-
RecordQuery.Command.Arguments — the arguments of a command line, level by level.

Arguments are read from left to right. A word that names a command opens a new
level, to which the further arguments belong. The value of an option may follow
it as an argument of its own or behind an equals sign; behind a letter it may
also follow at once. Two dashes alone end the options of a level. A value is
checked when the next option or argument is met, or at the end; help is given
as soon as it is asked for.

Main definitions:
* `Level`, `Refusal`;
* `Level.readLong`, `Level.readLetters`, `Level.readPositional`;
* `readLevels`.
-/
import RecordQuery.Command.Rules

namespace RecordQuery

/-- Why no command is run. -/
inductive Refusal where
  /-- The arguments are not accepted. -/
  | rejected
  /-- Help on a command was asked for. -/
  | help (command : CommandName)
  /-- The version of a command was asked for. -/
  | version (command : CommandName)
  deriving DecidableEq

/-- What was read last and is not checked yet. -/
inductive Pending where
  | awaiting (name : String) (kind : ValueKind)
  | option (name : String) (kind : ValueKind) (value : String)
  | positional (kind : ValueKind) (value : String)
  deriving DecidableEq

/-- The arguments that belong to one command. A flag is given with an empty value. -/
structure Level where
  command : CommandName
  options : List (String × String) := []
  positionals : List String := []
  pending : Option Pending := none
  isTrailing : Bool := false
  deriving DecidableEq

namespace Level

/-- The value of an option, if it is given. -/
def value? (level : Level) (name : String) : Option String := level.options.lookup name

/-- The option is given. -/
def has (level : Level) (name : String) : Bool := (level.value? name).isSome

/-- The level with an option. An option is given once. -/
def give (level : Level) (name value : String) : Except Refusal Level :=
  if level.has name then .error .rejected
  else .ok { level with options := level.options ++ [(name, value)] }

/-- The level with the pending value checked and taken over. -/
def settle (level : Level) : Except Refusal Level :=
  match level.pending with
  | none => .ok level
  | some (.awaiting ..) => .error .rejected
  | some (.option name kind value) =>
    if kind.accepts value then { level with pending := none }.give name value
    else .error .rejected
  | some (.positional kind value) =>
    if kind.accepts value then
      .ok { level with pending := none, positionals := level.positionals ++ [value] }
    else .error .rejected

/-- The level after an option, with the value that was attached to it. -/
def react (level : Level) (option : OptionRule) (attached : Option String) :
    Except Refusal Level := do
  let level ← level.settle
  match option.effect, attached with
  | .help, none => .error (.help level.command)
  | .version, none => .error (.version level.command)
  | .flag, none => level.give option.name ""
  | .value kind, none => .ok { level with pending := some (.awaiting option.name kind) }
  | .value kind, some value =>
    if kind.accepts value then level.give option.name value else .error .rejected
  | _, some _ => .error .rejected

/-- The level after an argument that begins with two dashes, which are left out here. -/
def readLong (level : Level) (cs : List Char) : Except Refusal Level :=
  let name := String.ofList (cs.takeWhile (· ≠ '='))
  let attached := match cs.dropWhile (· ≠ '=') with
    | [] => none
    | _ :: value => some (String.ofList value)
  match level.command.rule.options.find? fun option => option.name = name with
  | none => .error .rejected
  | some option => level.react option attached

/-- The value that is attached to a letter. -/
def attachedValue : List Char → Option String
  | [] => none
  | '=' :: value => some (String.ofList value)
  | value => some (String.ofList value)

/-- The level after letters that stand for options. What follows the letter of an option with a
value is the value. -/
def readLetters (level : Level) : List Char → Except Refusal Level
  | [] => .ok level
  | letter :: cs =>
    match level.command.rule.options.find? fun option => option.letter = some letter with
    | none => .error .rejected
    | some option =>
      match option.effect with
      | .value _ => level.react option (attachedValue cs)
      | _ =>
        match level.react option none with
        | .error refusal => .error refusal
        | .ok level => level.readLetters cs

/-- The level after an argument that stands for itself. -/
def readPositional (level : Level) (value : String) : Except Refusal Level := do
  let level ← level.settle
  match level.command.rule.positionals[level.positionals.length]? with
  | some (_, kind) => .ok { level with pending := some (.positional kind value) }
  | none => .error .rejected

/-- The level after an argument that opens no level below. -/
def read (level : Level) (argument : String) : Except Refusal Level :=
  if level.isTrailing then level.readPositional argument
  else
    match argument.toList with
    | ['-', '-'] => .ok { level with isTrailing := true }
    | '-' :: '-' :: cs => level.readLong cs
    | '-' :: c :: cs => level.readLetters (c :: cs)
    | _ => level.readPositional argument

/-- The argument begins with a dash and goes on. -/
def startsOption (argument : String) : Bool :=
  match argument.toList with
  | '-' :: _ :: _ => true
  | _ => false

/-- The word that asks for help on a command. -/
def helpWord : String := "help"

/-- Help on the command that words name, from a command on that has commands below it. -/
def readHelp (command : CommandName) : List String → Refusal
  | [] => .help command
  | word :: words =>
    match command.subcommand? word with
    | some below => readHelp below words
    | none =>
      if word = helpWord ∧ words.isEmpty ∧ !command.rule.subcommands.isEmpty then .help command
      else .rejected

/-- The levels that arguments make, the innermost first. -/
def readAll (outer : List Level) (level : Level) : List String → Except Refusal (List Level)
  | [] => .ok (level :: outer)
  | argument :: arguments =>
    match level.pending with
    | some (.awaiting name kind) =>
      if startsOption argument then .error .rejected
      else readAll outer { level with pending := some (.option name kind argument) } arguments
    | _ =>
      if level.isTrailing then do
        readAll outer (← level.read argument) arguments
      else
        match level.command.subcommand? argument with
        | some below => readAll (level :: outer) { command := below } arguments
        | none =>
          if argument = helpWord ∧ !level.command.rule.subcommands.isEmpty then
            .error (readHelp level.command arguments)
          else do
            readAll outer (← level.read argument) arguments

/-- All arguments of a level are accepted, and together make sense. -/
def finish (level : Level) : Except Refusal Level := do
  let level ← level.settle
  let rule := level.command.rule
  if rule.required.all level.has
      ∧ !(rule.conflicts.any fun pair => level.has pair.1 && level.has pair.2)
      ∧ level.positionals.length = rule.positionals.length then
    .ok level
  else .error .rejected

end Level

/-- The levels of a command line, the innermost first. -/
def readLevels (arguments : List String) : Except Refusal (List Level) := do
  (← Level.readAll [] { command := .top } arguments).mapM Level.finish

end RecordQuery
