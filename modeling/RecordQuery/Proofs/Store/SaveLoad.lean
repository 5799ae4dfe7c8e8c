/-
RecordQuery.Proofs.Store.SaveLoad — what was saved is loaded.

A save that succeeds leaves the text of the dataset in the file, whatever the
files were before, so what is loaded then is what reading makes of this text.
Whether that is the dataset again is a matter of the text alone and not of the
files. It makes no difference either whether a caller waits: the files are used
in the same steps then, and every failure is the same error.

Main statements:
* `Store.loadAsync_eq`, `Store.loadOrEmptyAsync_eq`, `Store.saveAsync_eq` — the two ways of calling;
* `Store.find_of_save` — the file after a save that succeeded;
* `Store.load_of_save` — what is loaded from it;
* `Store.exists_of_load` — whatever is loaded was read from some text.
-/
import RecordQuery.Proofs.Dataset.Result
import RecordQuery.Proofs.Files.Place
import RecordQuery.Store

namespace RecordQuery

/-! ## Changes that succeed -/

theorem Files.changed_eq_ok {files s : Files} {result : Except FileFault Files} :
    files.changed result = (.ok (), s) ↔ result = .ok s := by
  cases result <;> simp [Files.changed]

namespace FileChange

variable {files s : Files} {source path : Path} {content : ByteArray}

theorem apply_write_eq_ok :
    (write path content).apply files = (.ok (), s) ↔ files.write path content = .ok s := by
  rw [apply, Files.changed_eq_ok]

theorem apply_rename_eq_ok :
    (rename source path).apply files = (.ok (), s) ↔ files.rename source path = .ok s := by
  rw [apply, Files.changed_eq_ok]

theorem apply_remove_eq_ok :
    (remove path).apply files = (.ok (), s) ↔ files.remove path = .ok s := by
  rw [apply, Files.changed_eq_ok]

end FileChange

/-! ## Changes one after the other -/

namespace FileTask

variable {step : FileChange} {steps : List FileChange} {files s : Files}

/-- Of a list of changes that succeeded the first one succeeded, and so did the others after it. -/
theorem changeAll_cons_ok (h : (changeAll (step :: steps)).run files = (.ok (), s)) :
    ∃ mid, step.apply files = (.ok (), mid) ∧ (changeAll steps).run mid = (.ok (), s) := by
  rw [changeAll, run] at h
  cases hstep : step.apply files with
  | mk answer mid =>
    cases answer with
    | error fault => simp [hstep, run] at h
    | ok => exact ⟨mid, rfl, by simpa [hstep] using h⟩

theorem changeAll_append_ok (front : List FileChange)
    (h : (changeAll (front ++ steps)).run files = (.ok (), s)) :
    ∃ mid, (changeAll steps).run mid = (.ok (), s) := by
  induction front generalizing files with
  | nil => exact ⟨files, h⟩
  | cons step front ih =>
    obtain ⟨mid, _, hmid⟩ := changeAll_cons_ok h
    exact ih hmid

end FileTask

namespace Store

variable {store : Store} {dataset : Dataset} {files s : Files}

/-- How a save ends that has made its changes. -/
def saveEnd : Except (FileChange × FileFault) Unit → FileTask (Except StoreError Unit)
  | .ok () => .done (.ok ())
  | .error (step, fault) => .done (.error (.ofChange fault step))

theorem save_eq (store : Store) (dataset : Dataset) :
    store.save dataset = (FileTask.changeAll (store.saveChanges dataset)).bind saveEnd := rfl

/-! ## The two ways of calling -/

theorem loadAsync_eq (store : Store) : store.loadAsync = store.load := rfl

theorem loadOrEmptyAsync_eq (store : Store) : store.loadOrEmptyAsync = store.loadOrEmpty := by
  show store.loadAsync.bind _ = store.load.bind _
  rw [loadAsync_eq]
  congr 1
  funext result
  cases result with
  | ok => rfl
  | error error =>
    cases error with
    | read path fault => cases fault <;> rfl
    | _ => rfl

/-- The list of changes is made step by step, and the error of each is its own. -/
theorem saveAsync_eq (store : Store) (dataset : Dataset) :
    store.saveAsync dataset = store.save dataset := by
  have hstep (step : FileChange) (steps : List FileChange) :
      (FileTask.changeAll (step :: steps)).bind saveEnd =
        afterChange step (StoreError.ofChange · step) ((FileTask.changeAll steps).bind saveEnd) := by
    show FileTask.change step _ = FileTask.change step _
    congr 1
    funext answer
    cases answer <;> rfl
  rw [save_eq, saveChanges, saveAsync]
  cases store.path.parent? with
  | none =>
    show _ = (FileTask.changeAll [_, _]).bind saveEnd
    rw [hstep, hstep]
    rfl
  | some parent =>
    show _ = (FileTask.changeAll [_, _, _]).bind saveEnd
    rw [hstep, hstep, hstep]
    rfl

/-- A save makes the same steps in both ways of calling. -/
theorem task_of_save {call : StoreCall (Except StoreError Unit)}
    (hcall : call = .save dataset ∨ call = .saveAsync dataset) :
    call.task store = store.save dataset := by
  rcases hcall with rfl | rfl
  · rfl
  · exact store.saveAsync_eq dataset

/-- So does a load. -/
theorem task_of_load {call : StoreCall (Except StoreError Dataset)}
    (hcall : call = .load ∨ call = .loadAsync) : call.task store = store.load := by
  rcases hcall with rfl | rfl
  · rfl
  · exact store.loadAsync_eq

/-! ## What was saved -/

/-- A save that succeeded made all of its changes. -/
theorem changeAll_of_save (h : (store.save dataset).run files = (.ok (), s)) :
    (FileTask.changeAll (store.saveChanges dataset)).run files = (.ok (), s) := by
  rw [save_eq, FileTask.run_bind] at h
  cases hall : (FileTask.changeAll (store.saveChanges dataset)).run files with
  | mk answer mid =>
    rw [hall] at h
    cases answer with
    | ok => simpa [saveEnd, FileTask.run] using h
    | error failed => simp [saveEnd, FileTask.run] at h

/-- After a save that succeeded the path names a file with the text of the dataset. -/
theorem find_of_save (h : (store.save dataset).run files = (.ok (), s)) :
    s.find store.path = .ok (.file (encode dataset).toUTF8) := by
  obtain ⟨made, hmade⟩ := FileTask.changeAll_append_ok _ (changeAll_of_save h)
  obtain ⟨written, hwrite, hwritten⟩ := FileTask.changeAll_cons_ok hmade
  obtain ⟨renamed, hrename, hdone⟩ := FileTask.changeAll_cons_ok hwritten
  obtain rfl : renamed = s := congrArg Prod.snd hdone
  exact Files.find_of_write_rename (FileChange.apply_write_eq_ok.1 hwrite)
    (FileChange.apply_rename_eq_ok.1 hrename)

theorem decodeText_toUTF8 (text : String) : FileTask.decodeText text.toUTF8 = .ok text := by
  have htext : String.fromUTF8? text.toUTF8 = some text := by
    rw [String.fromUTF8?, String.toUTF8_eq_toByteArray, dif_pos text.isValidUTF8]
    rfl
  rw [FileTask.decodeText, htext]

/-- What a load makes of the text that it read. -/
def loadResult (store : Store) : Except FileFault String → Except StoreError Dataset
  | .error fault => .error (.read store.path fault)
  | .ok text => decode text

theorem load_run (store : Store) (files : Files) :
    store.load.run files =
      (store.loadResult ((files.read store.path).bind FileTask.decodeText), files) := by
  have hload : store.load =
      (FileTask.readText store.path).bind fun text => .done (store.loadResult text) := by
    rw [load]
    show (FileTask.readText store.path).bind _ = _
    congr 1
    funext text
    cases text <;> rfl
  rw [hload, FileTask.run_bind]
  rfl

/-- A file with a text is loaded as what this text holds. -/
theorem load_of_find {text : String} (h : files.find store.path = .ok (.file text.toUTF8)) :
    store.load.run files = (decode text, files) := by
  rw [load_run, Files.read_of_find h]
  show (store.loadResult (FileTask.decodeText text.toUTF8), files) = _
  rw [decodeText_toUTF8]
  rfl

/-- What is loaded after a save that succeeded is what reading makes of the written text. -/
theorem load_of_save (h : (store.save dataset).run files = (.ok (), s)) :
    store.load.run s = (decode (encode dataset), s) :=
  load_of_find (find_of_save h)

/-- What was loaded is what some text holds. -/
theorem exists_of_load (h : store.load.run files = (.ok dataset, s)) :
    ∃ text, Dataset.parse text = .ok dataset := by
  rw [load_run] at h
  have hresult := congrArg Prod.fst h
  cases htext : (files.read store.path).bind FileTask.decodeText with
  | error fault => rw [htext] at hresult; cases hresult
  | ok text =>
    rw [htext] at hresult
    cases hparse : Dataset.parse text with
    | error e => simp [loadResult, decode, hparse, Except.mapError] at hresult
    | ok found =>
      simp [loadResult, decode, hparse, Except.mapError] at hresult
      exact ⟨text, hresult ▸ hparse⟩

end Store

end RecordQuery
