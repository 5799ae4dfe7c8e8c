/-
RecordQuery.Files.Task — work that reads and changes files.

A task says which file operation comes first and, for every answer to it, how
the work goes on. It is run on a tree of files here, and on the files of a
computer by a program's outer layer.

Main definitions:
* `FileChange`, `FileChange.apply`;
* `FileTask`, `FileTask.bind`, `FileTask.run`;
* `FileTask.readText`, `FileTask.contains`, `FileTask.changeAll`.
-/
import RecordQuery.Files.Basic

namespace RecordQuery

/-- One change of the files. -/
inductive FileChange where
  | makeDirectories (path : Path)
  | write (path : Path) (content : ByteArray)
  | rename (source path : Path)
  | remove (path : Path)
  deriving DecidableEq

/-- The files that a change makes of others, or the same files if it fails. -/
def Files.changed (files : Files) (result : Except FileFault Files) :
    Except FileFault Unit × Files :=
  match result with
  | .ok files => (.ok (), files)
  | .error fault => (.error fault, files)

/-- The result of a change and the files after it. -/
def FileChange.apply (files : Files) : FileChange → Except FileFault Unit × Files
  | .makeDirectories path => files.makeDirectories path
  | .write path content => files.changed (files.write path content)
  | .rename source path => files.changed (files.rename source path)
  | .remove path => files.changed (files.remove path)

/-- Work that reads and changes files, step by step. -/
inductive FileTask (α : Type) where
  | done (result : α)
  | read (path : Path) (next : Except FileFault ByteArray → FileTask α)
  | check (path : Path) (next : Bool → FileTask α)
  | change (change : FileChange) (next : Except FileFault Unit → FileTask α)

namespace FileTask

variable {α β : Type}

/-- One task after another, which may depend on the result of the first. -/
def bind : FileTask α → (α → FileTask β) → FileTask β
  | .done result, next => next result
  | .read path rest, next => .read path fun answer => (rest answer).bind next
  | .check path rest, next => .check path fun answer => (rest answer).bind next
  | .change step rest, next => .change step fun answer => (rest answer).bind next

instance : Monad FileTask where
  pure := .done
  bind := bind

/-- The result of a task on a tree of files, and the files after it. -/
def run : FileTask α → Files → α × Files
  | .done result, files => (result, files)
  | .read path next, files => (next (files.read path)).run files
  | .check path next, files => (next (files.contains path)).run files
  | .change step next, files =>
    let (answer, files) := step.apply files
    (next answer).run files

/-- A task after another runs on the files that the first leaves. -/
theorem run_bind (task : FileTask α) (next : α → FileTask β) (files : Files) :
    (task.bind next).run files = (next (task.run files).1).run (task.run files).2 := by
  induction task generalizing files with
  | done => rfl
  | read _ _ ih => exact ih _ files
  | check _ _ ih => exact ih _ files
  | change step _ ih => exact ih _ (step.apply files).2

/-- The text of bytes, if they are one. -/
def decodeText (content : ByteArray) : Except FileFault String :=
  match String.fromUTF8? content with
  | some text => .ok text
  | none => .error .notText

/-- The text of a file. -/
def readText (path : Path) : FileTask (Except FileFault String) :=
  .read path fun content => .done (content.bind decodeText)

/-- Whether there is a file or directory. -/
def contains (path : Path) : FileTask Bool := .check path .done

/-- Changes one after the other up to the first that fails, which is named. -/
def changeAll : List FileChange → FileTask (Except (FileChange × FileFault) Unit)
  | [] => .done (.ok ())
  | step :: steps => .change step fun
    | .ok () => changeAll steps
    | .error fault => .done (.error (step, fault))

end FileTask

end RecordQuery
