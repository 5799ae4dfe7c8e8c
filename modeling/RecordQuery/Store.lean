/-
RecordQuery.Store — the file that keeps a dataset.

A dataset is saved in three steps: the directory is made if it is missing, the
text is written beside the file under another extension, and the new file takes
the place of the old one. So the file itself is never seen half written.

A dataset can be loaded and saved in two ways: the caller waits for the result, or
goes on with other work until it is there.

Main definitions:
* `Store`, `StoreError`;
* `Store.load`, `Store.loadOrEmpty`;
* `Store.saveChanges`, `Store.save`;
* `Store.loadAsync`, `Store.loadOrEmptyAsync`, `Store.saveAsync`;
* `Store.delete`, `Store.isPresent`;
* `StoreCall` — everything that a store can be asked for.
-/
import RecordQuery.Dataset.Reader
import RecordQuery.Files.Task

namespace RecordQuery

/-- The place of a dataset file. -/
structure Store where
  path : Path
  deriving DecidableEq, Inhabited

/-- Why a dataset file could not be used. -/
inductive StoreError where
  | read (path : Path) (fault : FileFault)
  | write (path : Path) (fault : FileFault)
  | makeDirectory (path : Path) (fault : FileFault)
  | delete (path : Path) (fault : FileFault)
  | json (error : Json.ReadError)
  | noHome
  deriving DecidableEq

/-- A message about a path and what went wrong there. -/
def faultMessage (what : String) (path : Path) (fault : FileFault) : String :=
  what ++ " '" ++ path.text ++ "': " ++ fault.message

def StoreError.message : StoreError → String
  | .read path fault => faultMessage "failed to read dataset file" path fault
  | .write path fault => faultMessage "failed to write dataset file" path fault
  | .makeDirectory path fault => faultMessage "failed to create data directory" path fault
  | .delete path fault => faultMessage "failed to delete dataset file" path fault
  | .json error => "JSON error: " ++ error.message
  | .noHome => "failed to determine data directory: no valid home directory found"

/-- A change that failed, as an error. -/
def StoreError.ofChange (fault : FileFault) : FileChange → StoreError
  | .makeDirectories path => .makeDirectory path fault
  | .write path _ => .write path fault
  | .rename _ path => .write path fault
  | .remove path => .delete path fault

namespace Store

/-! ## Loading and saving -/

/-- The dataset that a text holds. -/
def decode (text : String) : Except StoreError Dataset := (Dataset.parse text).mapError .json

/-- The text of a dataset file. -/
def encode (dataset : Dataset) : String := dataset.toJson.pretty

/-- The dataset in the file. -/
def load (store : Store) : FileTask (Except StoreError Dataset) := do
  match ← FileTask.readText store.path with
  | .error fault => pure (.error (.read store.path fault))
  | .ok text => pure (decode text)

/-- The dataset in the file; the empty one if there is no file. -/
def loadOrEmpty (store : Store) : FileTask (Except StoreError Dataset) := do
  match ← store.load with
  | .error (.read _ .notFound) => pure (.ok .empty)
  | result => pure result

/-- The path beside the file that is written first. -/
def temporaryPath (store : Store) : Path := store.path.withExtension "tmp"

/-- The changes that save a dataset. -/
def saveChanges (store : Store) (dataset : Dataset) : List FileChange :=
  store.path.parent?.toList.map .makeDirectories
    ++ [.write store.temporaryPath (encode dataset).toUTF8,
      .rename store.temporaryPath store.path]

/-- The dataset in the place of what the file held. -/
def save (store : Store) (dataset : Dataset) : FileTask (Except StoreError Unit) := do
  match ← FileTask.changeAll (store.saveChanges dataset) with
  | .ok () => pure (.ok ())
  | .error (step, fault) => pure (.error (.ofChange fault step))

/-! ## Calls during which other work goes on -/

/-- The dataset in the file, for a caller that goes on with other work. -/
def loadAsync (store : Store) : FileTask (Except StoreError Dataset) :=
  .read store.path fun answer =>
    match answer.bind FileTask.decodeText with
    | .error fault => .done (.error (.read store.path fault))
    | .ok text => .done (decode text)

/-- The dataset in the file or the empty one, for a caller that goes on with other work. -/
def loadOrEmptyAsync (store : Store) : FileTask (Except StoreError Dataset) := do
  match ← store.loadAsync with
  | .ok dataset => pure (.ok dataset)
  | .error (.read path fault) =>
    pure (if fault = .notFound then .ok .empty else .error (.read path fault))
  | .error error => pure (.error error)

/-- A change, and what comes after it if it succeeds. -/
def afterChange (step : FileChange) (toError : FileFault → StoreError)
    (next : FileTask (Except StoreError Unit)) : FileTask (Except StoreError Unit) :=
  .change step fun
    | .ok () => next
    | .error fault => .done (.error (toError fault))

/-- The dataset in the place of what the file held, for a caller that goes on with other work. -/
def saveAsync (store : Store) (dataset : Dataset) : FileTask (Except StoreError Unit) :=
  let replaced :=
    afterChange (.write store.temporaryPath (encode dataset).toUTF8) (.write store.temporaryPath)
      (afterChange (.rename store.temporaryPath store.path) (.write store.path) (.done (.ok ())))
  match store.path.parent? with
  | some parent => afterChange (.makeDirectories parent) (.makeDirectory parent) replaced
  | none => replaced

/-! ## Other calls -/

/-- No file any more. That there was none is no error. -/
def delete (store : Store) : FileTask (Except StoreError Unit) :=
  .change (.remove store.path) fun
    | .ok () | .error .notFound => .done (.ok ())
    | .error fault => .done (.error (.delete store.path fault))

/-- Whether there is a file. -/
def isPresent (store : Store) : FileTask Bool := FileTask.contains store.path

end Store

/-- What a store can be asked for, with the type of the answer. What reads or writes a dataset can be
asked for in two ways: its caller waits for it, or goes on with other work until it is done. -/
inductive StoreCall : Type → Type where
  | save (dataset : Dataset) : StoreCall (Except StoreError Unit)
  | saveAsync (dataset : Dataset) : StoreCall (Except StoreError Unit)
  | delete : StoreCall (Except StoreError Unit)
  | load : StoreCall (Except StoreError Dataset)
  | loadAsync : StoreCall (Except StoreError Dataset)
  | loadOrEmpty : StoreCall (Except StoreError Dataset)
  | loadOrEmptyAsync : StoreCall (Except StoreError Dataset)
  | isPresent : StoreCall Bool

/-- The work that answers a call. -/
def StoreCall.task (store : Store) : {Answer : Type} → StoreCall Answer → FileTask Answer
  | _, .save dataset => store.save dataset
  | _, .saveAsync dataset => store.saveAsync dataset
  | _, .delete => store.delete
  | _, .load => store.load
  | _, .loadAsync => store.loadAsync
  | _, .loadOrEmpty => store.loadOrEmpty
  | _, .loadOrEmptyAsync => store.loadOrEmptyAsync
  | _, .isPresent => store.isPresent

end RecordQuery
