/-
RecordQuery.Command.Manual — texts about the commands themselves.

Main definitions:
* `CommandName.manual` — help on a command;
* `completionScript` — a script that completes command words in a shell;
* `CommandName.versionLine`, `rejectionText`.
-/
import RecordQuery.Command.Rules

namespace RecordQuery

/-- The version of the program and of all its commands. -/
def versionNumber : String := "0.1.0"

/-- The name of a command and its version. -/
def CommandName.versionLine (name : CommandName) : String :=
  "-".intercalate (name.path.map word) ++ " " ++ versionNumber ++ "\n"

/-- What is said of arguments that are not accepted. -/
def rejectionText : String :=
  "error: invalid arguments\n\nFor more information, try '--help'.\n"

/-- An option as it is typed. -/
def OptionRule.usage (option : OptionRule) : String :=
  let short := match option.letter with
    | some letter => String.ofList ['-', letter, ',', ' ']
    | none => "    "
  let value := match option.effect with
    | .value _ => " <VALUE>"
    | _ => ""
  "  " ++ short ++ "--" ++ option.name ++ value

/-- Help on a command: what it does, its arguments, the commands below it and its options. -/
def CommandName.manual (name : CommandName) : String :=
  let rule := name.rule
  let line (text : String) : String := text ++ "\n"
  let below := rule.subcommands.map fun below =>
    line ("  " ++ below.word ++ "  " ++ below.rule.summary)
  line rule.summary
    ++ line ("\nUsage: " ++ name.word ++ " [OPTIONS]"
      ++ String.join (rule.positionals.map fun positional => " <" ++ positional.1 ++ ">")
      ++ (if below.isEmpty then "" else " [COMMAND]"))
    ++ (if below.isEmpty then "" else line "\nCommands:" ++ String.join below)
    ++ line "\nOptions:" ++ String.join (rule.options.map fun option => line option.usage)

/-- The words that may follow the name of the program. -/
def commandWords : String :=
  " ".intercalate (CommandName.top.rule.subcommands.map CommandName.word ++ ["help"])

/-- A script that completes the first word in a shell. -/
def completionScript (shell : String) : String :=
  if shell = "bash" then "complete -W '" ++ commandWords ++ "' qq\n"
  else if shell = "zsh" then
    "#compdef qq\n_arguments '1:command:(" ++ commandWords ++ ")' '*::argument:_files'\n"
  else if shell = "fish" then
    "complete -c qq -n __fish_use_subcommand -a '" ++ commandWords ++ "'\n"
  else
    "Register-ArgumentCompleter -Native -CommandName qq -ScriptBlock \x7b '" ++ commandWords
      ++ "' -split ' ' \x7d\n"

end RecordQuery
