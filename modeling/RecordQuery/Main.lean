/-
RecordQuery.Main — the program at work on the files of a computer.

The outer layer carries out the steps of a task and prints its reply. It asks
for the environment, the clock and random numbers, and decides nothing.
-/
import RecordQuery.Command.Run
import Std.Time.DateTime.Timestamp

namespace RecordQuery

/-- The number that the system gives to an error, and what it says. -/
def errorNumber : IO.Error → Option (UInt32 × String)
  | .alreadyExists _ code details | .otherError code details | .resourceBusy code details
  | .resourceVanished code details | .unsupportedOperation code details
  | .hardwareFault code details | .unsatisfiedConstraints code details
  | .illegalOperation code details | .protocolError code details | .timeExpired code details
  | .interrupted _ code details | .noFileOrDirectory _ code details
  | .invalidArgument _ code details | .permissionDenied _ code details
  | .resourceExhausted _ code details | .inappropriateType _ code details
  | .noSuchThing _ code details => some (code, details)
  | .unexpectedEof | .userError _ => none

/-- An error of the system as a fault. -/
def FileFault.ofError (error : IO.Error) : FileFault :=
  match errorNumber error with
  | some (2, _) => .notFound
  | some (16, _) => .busy
  | some (17, _) => .alreadyExists
  | some (20, _) => .notDirectory
  | some (21, _) => .isDirectory
  | some (36, _) => .nameTooLong
  | some (code, details) => .other (details ++ " (os error " ++ toString code ++ ")")
  | none => .other (toString error)

/-- An operation on files, whose errors become faults. -/
def attempt {α : Type} (operation : IO α) : IO (Except FileFault α) :=
  tryCatch (Except.ok <$> operation) fun error => pure (.error (.ofError error))

/-- A change of files. -/
def FileChange.perform : FileChange → IO (Except FileFault Unit)
  | .makeDirectories path =>
    if path.text.isEmpty then pure (.ok ()) else attempt (IO.FS.createDirAll path.text)
  | .write path content => attempt (IO.FS.writeBinFile path.text content)
  | .rename source path => attempt (IO.FS.rename source.text path.text)
  | .remove path => attempt (IO.FS.removeFile path.text)

/-- The steps of a task, one after the other. -/
def FileTask.perform {α : Type} : FileTask α → IO α
  | .done result => pure result
  | .read path next => do
    let content ← attempt (IO.FS.readBinFile path.text)
    (next content).perform
  | .check path next => do
    let found ← attempt (IO.FS.realPath path.text)
    (next found.isOk).perform
  | .change step next => do
    let result ← step.perform
    (next result).perform

/-- The variables that commands look at. -/
def variableNames : List String :=
  ["HOME", "XDG_CONFIG_HOME", "XDG_DATA_HOME", "QQ_CONFIG", Environment.dataVariable, "NO_COLOR"]

/-- The environment of the running program. -/
def Environment.current : IO Environment := do
  let values ← variableNames.filterMapM fun name => do
    return (← IO.getEnv name).map fun value => (name, value)
  let seconds := (← Std.Time.Timestamp.now).toSecondsSinceUnixEpoch.val
  let milliseconds := (← Std.Time.Timestamp.now).toMillisecondsSinceUnixEpoch.val
  let noise ← IO.getRandomBytes 8
  let number := noise.toList.foldl (fun number byte => number * 256 + byte.toNat) 0
  return { lookup? := fun name => values.lookup name, accountHome := none,
           today := .ofDayNumber (Date.dayNumber ⟨1970, 1, 1⟩ + seconds / 86400),
           now := .ofInt milliseconds, entropy := .ofNat number }

end RecordQuery

open RecordQuery in
/-- Carries out a command line. A query without end is never answered. -/
def main (arguments : List String) : IO UInt32 := do
  match ← (runCommandLine (← Environment.current) arguments).perform with
  | some reply =>
    IO.print reply.output
    IO.eprint reply.errors
    return reply.exit
  | none =>
    repeat IO.sleep 1000
    return 0
