/-
RecordQuery.Proofs.Files.Failure — work whose changes may fail.

A change can fail because of what the files are, and also for a reason that no
tree of files explains: a full disk, a missing permission. What was done until
then stays: some directories were made, a file holds the first of the new bytes.
A rename or a removal that fails has changed nothing. `FileChange.Fails` tells
how a change may fail, `FileTask.Ends` how a whole task may end that goes on
after the failure of a change as it is told to.

Main statements:
* `FileTask.ends_run` — to run on the tree of files alone is one way to end;
* `FileTask.Ends.of_bind` — a task after another ends after the other;
* `FileTask.Ends.changeAll_cons` — the first of some changes fails or succeeds;
* `FileTask.OnlyReads.run_eq` — a task that only reads can end in one way alone.
-/
import RecordQuery.Proofs.Files.CutOff

namespace RecordQuery

/-- How a change may fail: its fault and the files after it. -/
inductive FileChange.Fails : FileChange → Files → FileFault → Files → Prop
  /-- What the files are does not allow it. -/
  | refused {change : FileChange} {files s : Files} {fault : FileFault}
      (apply : change.apply files = (.error fault, s)) : Fails change files fault s
  /-- Any of the missing directories were made. -/
  | makeDirectories {path : Path} {files s : Files}
      (leaves : (FileChange.makeDirectories path).Leaves files s) (fault : FileFault) :
      Fails (.makeDirectories path) files fault s
  /-- Any part of the content was written. -/
  | write {path : Path} {content : ByteArray} {files s : Files}
      (leaves : (FileChange.write path content).Leaves files s) (fault : FileFault) :
      Fails (.write path content) files fault s
  | rename (source path : Path) (files : Files) (fault : FileFault) :
      Fails (.rename source path) files fault files
  /-- The file is kept. It cannot be missing then. -/
  | remove {path : Path} {files s : Files} {fault : FileFault} (present : files.remove path = .ok s)
      (other : fault ≠ .notFound) : Fails (.remove path) files fault files

/-- How a task may end whose changes may fail: its result and the files after it. -/
inductive FileTask.Ends {α : Type} : FileTask α → Files → α → Files → Prop
  | done (result : α) (files : Files) : Ends (.done result) files result files
  | read {path : Path} {next : Except FileFault ByteArray → FileTask α} {files s : Files}
      {result : α} (rest : Ends (next (files.read path)) files result s) :
      Ends (.read path next) files result s
  | check {path : Path} {next : Bool → FileTask α} {files s : Files} {result : α}
      (rest : Ends (next (files.contains path)) files result s) :
      Ends (.check path next) files result s
  | changed {change : FileChange} {next : Except FileFault Unit → FileTask α}
      {files mid s : Files} {result : α} (apply : change.apply files = (.ok (), mid))
      (rest : Ends (next (.ok ())) mid result s) : Ends (.change change next) files result s
  | failed {change : FileChange} {next : Except FileFault Unit → FileTask α}
      {files mid s : Files} {result : α} {fault : FileFault} (fails : change.Fails files fault mid)
      (rest : Ends (next (.error fault)) mid result s) : Ends (.change change next) files result s

/-! ## Changes that fail -/

namespace FileChange.Fails

variable {files s : Files} {path source : Path} {content : ByteArray} {fault : FileFault}

theorem leaves_makeDirectories (h : (FileChange.makeDirectories path).Fails files fault s) :
    (FileChange.makeDirectories path).Leaves files s := by
  cases h with
  | refused apply => exact leaves_of_apply apply
  | makeDirectories leaves => exact leaves

theorem leaves_write (h : (FileChange.write path content).Fails files fault s) :
    (FileChange.write path content).Leaves files s := by
  cases h with
  | refused apply => exact leaves_of_apply apply
  | write leaves => exact leaves

theorem eq_of_changed_error {result : Except FileFault Files}
    (h : files.changed result = (.error fault, s)) : result = .error fault ∧ s = files := by
  cases result with
  | ok => cases h
  | error => cases h; exact ⟨rfl, rfl⟩

theorem eq_of_rename (h : (FileChange.rename source path).Fails files fault s) : s = files := by
  cases h with
  | refused apply => exact (eq_of_changed_error apply).2
  | rename => rfl

/-- A removal that fails tells that the file is missing only if it is. -/
theorem eq_of_remove (h : (FileChange.remove path).Fails files fault s) :
    s = files ∧ (files.remove path = .error fault ∨
      fault ≠ .notFound ∧ ∃ t, files.remove path = .ok t) := by
  cases h with
  | refused apply =>
    obtain ⟨hremove, rfl⟩ := eq_of_changed_error apply
    exact ⟨rfl, .inl hremove⟩
  | remove present other => exact ⟨rfl, .inr ⟨other, _, present⟩⟩

end FileChange.Fails

/-! ## Tasks -/

namespace FileTask

variable {α β : Type} {task : FileTask α} {files s : Files}

/-- What a task does on the tree of files alone is one of the ways to end. -/
theorem ends_run (task : FileTask α) (files : Files) :
    task.Ends files (task.run files).1 (task.run files).2 := by
  induction task generalizing files with
  | done result => exact .done result files
  | read path next ih => exact .read (ih _ files)
  | check path next ih => exact .check (ih _ files)
  | change step next ih =>
    rw [run]
    cases happly : step.apply files with
    | mk answer mid =>
      cases answer with
      | ok => exact .changed happly (ih _ mid)
      | error fault => exact .failed (.refused happly) (ih _ mid)

/-- A task after another ends after the other ended. -/
theorem Ends.of_bind {next : α → FileTask β} {result : β}
    (h : (task.bind next).Ends files result s) :
    ∃ first mid, task.Ends files first mid ∧ (next first).Ends mid result s := by
  induction task generalizing files with
  | done first => exact ⟨first, files, .done first files, h⟩
  | read path rest ih =>
    rw [bind] at h
    cases h with
    | read h =>
      obtain ⟨first, mid, hfirst, hnext⟩ := ih _ h
      exact ⟨first, mid, .read hfirst, hnext⟩
  | check path rest ih =>
    rw [bind] at h
    cases h with
    | check h =>
      obtain ⟨first, mid, hfirst, hnext⟩ := ih _ h
      exact ⟨first, mid, .check hfirst, hnext⟩
  | change step rest ih =>
    rw [bind] at h
    cases h with
    | changed apply h =>
      obtain ⟨first, mid, hfirst, hnext⟩ := ih _ h
      exact ⟨first, mid, .changed apply hfirst, hnext⟩
    | failed fails h =>
      obtain ⟨first, mid, hfirst, hnext⟩ := ih _ h
      exact ⟨first, mid, .failed fails hfirst, hnext⟩

theorem Ends.eq_of_done {first result : α} (h : (FileTask.done first).Ends files result s) :
    result = first ∧ s = files := by
  cases h
  exact ⟨rfl, rfl⟩

/-- The first of some changes fails, and that is the end, or it succeeds and the others follow. -/
theorem Ends.changeAll_cons {step : FileChange} {steps : List FileChange}
    {result : Except (FileChange × FileFault) Unit}
    (h : (changeAll (step :: steps)).Ends files result s) :
    (∃ fault, result = .error (step, fault) ∧ step.Fails files fault s) ∨
      ∃ mid, step.apply files = (.ok (), mid) ∧ (changeAll steps).Ends mid result s := by
  rw [changeAll] at h
  cases h with
  | changed apply rest => exact .inr ⟨_, apply, rest⟩
  | failed fails rest =>
    obtain ⟨rfl, rfl⟩ := rest.eq_of_done
    exact .inl ⟨_, rfl, fails⟩

/-- Changes that all succeed are made on the tree of files alone. -/
theorem Ends.run_changeAll {steps : List FileChange} (h : (changeAll steps).Ends files (.ok ()) s) :
    (changeAll steps).run files = (.ok (), s) := by
  induction steps generalizing files with
  | nil =>
    obtain ⟨-, rfl⟩ := h.eq_of_done
    rfl
  | cons step steps ih =>
    rcases h.changeAll_cons with ⟨fault, hresult, -⟩ | ⟨mid, happly, hrest⟩
    · cases hresult
    · rw [changeAll, run, happly]
      exact ih hrest

/-- A task that changes nothing. -/
inductive OnlyReads : FileTask α → Prop
  | done (result : α) : OnlyReads (.done result)
  | read {path : Path} {next : Except FileFault ByteArray → FileTask α}
      (rest : ∀ answer, OnlyReads (next answer)) : OnlyReads (.read path next)
  | check {path : Path} {next : Bool → FileTask α} (rest : ∀ answer, OnlyReads (next answer)) :
      OnlyReads (.check path next)

/-- A task that changes nothing ends as it does on the tree of files. -/
theorem OnlyReads.run_eq {result : α} (h : task.OnlyReads) (hends : task.Ends files result s) :
    task.run files = (result, s) := by
  induction hends with
  | done => rfl
  | read _ ih => cases h with | read hrest => exact ih (hrest _)
  | check _ ih => cases h with | check hrest => exact ih (hrest _)
  | changed => cases h
  | failed => cases h

theorem OnlyReads.bind {next : α → FileTask β} (h : task.OnlyReads)
    (hnext : ∀ result, (next result).OnlyReads) : (task.bind next).OnlyReads := by
  induction h with
  | done result => exact hnext result
  | read _ ih => exact .read ih
  | check _ ih => exact .check ih

end FileTask

end RecordQuery
