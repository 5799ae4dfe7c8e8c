/-
RecordQuery.Proofs.Files.CutOff — work that is cut off.

A crash can stop a task at any point, and so can a failure that no tree of files
explains: a full disk, a missing permission. Directories are made one by one. A
file that is written is emptied first and may keep any prefix of the new bytes.
A rename or a removal happens or does not. `FileChange.Leaves` tells which files
a change may leave behind when it is stopped, `FileTask.CutOff` which files a
whole task may.

Main statements:
* `FileChange.leaves_apply` — a change that runs to its end is one of the cases;
* `FileTask.cutOff_run` — so is a task that does;
* `FileTask.CutOff.changeAll_cons` — where a list of changes is cut off.
-/
import RecordQuery.Files.Task

namespace RecordQuery

/-- The files that a change may leave behind that was begun and then stopped. -/
inductive FileChange.Leaves : FileChange → Files → Files → Prop
  /-- Nothing was changed yet. -/
  | untouched (change : FileChange) (files : Files) : Leaves change files files
  /-- One more directory was made, of those that are missing. -/
  | made {path above : Path} {files mid s : Files}
      (before : Leaves (.makeDirectories path) files mid) (mem : above ∈ path.ancestors)
      (make : mid.makeDirectory above = .ok s) : Leaves (.makeDirectories path) files s
  /-- The file holds the first bytes of the new content. -/
  | torn {path : Path} {content : ByteArray} {files s : Files} (length : Nat)
      (write : files.write path (content.extract 0 length) = .ok s) :
      Leaves (.write path content) files s
  | renamed {source path : Path} {files s : Files} (rename : files.rename source path = .ok s) :
      Leaves (.rename source path) files s
  | removed {path : Path} {files s : Files} (remove : files.remove path = .ok s) :
      Leaves (.remove path) files s

/-- The files that a task may leave behind that is cut off: at any point, in the middle of a change
or, if a change fails for any reason, later. -/
inductive FileTask.CutOff {α : Type} : FileTask α → Files → Files → Prop
  | here (task : FileTask α) (files : Files) : CutOff task files files
  | read {path : Path} {next : Except FileFault ByteArray → FileTask α} {files s : Files}
      (rest : CutOff (next (files.read path)) files s) : CutOff (.read path next) files s
  | check {path : Path} {next : Bool → FileTask α} {files s : Files}
      (rest : CutOff (next (files.contains path)) files s) : CutOff (.check path next) files s
  | within {change : FileChange} {next : Except FileFault Unit → FileTask α} {files s : Files}
      (leaves : change.Leaves files s) : CutOff (.change change next) files s
  | failed {change : FileChange} {next : Except FileFault Unit → FileTask α} {files mid s : Files}
      (fault : FileFault) (leaves : change.Leaves files mid)
      (rest : CutOff (next (.error fault)) mid s) : CutOff (.change change next) files s
  | after {change : FileChange} {next : Except FileFault Unit → FileTask α} {files s : Files}
      (rest : CutOff (next (change.apply files).1) (change.apply files).2 s) :
      CutOff (.change change next) files s

/-! ## Changes that are stopped -/

namespace FileChange

variable {files s : Files} {path : Path}

/-- What holds before directories are made, and still when one more is made, holds wherever making
them is stopped. -/
@[elab_as_elim]
theorem Leaves.makeDirectories_induction {motive : Files → Prop}
    (h : (FileChange.makeDirectories path).Leaves files s) (untouched : motive files)
    (made : ∀ {mid s : Files} {above : Path},
      (FileChange.makeDirectories path).Leaves files mid → above ∈ path.ancestors →
        mid.makeDirectory above = .ok s → motive mid → motive s) : motive s := by
  generalize hchange : FileChange.makeDirectories path = change at h
  induction h with
  | untouched => exact untouched
  | made before mem make ih =>
    cases hchange
    exact made before mem make (ih untouched made rfl)
  | torn => cases hchange
  | renamed => cases hchange
  | removed => cases hchange

/-! ## Changes that run to their end -/

theorem ensureDirectory_ok (h : files.ensureDirectory path = .ok s) :
    files.makeDirectory path = .ok s ∨ files = s := by
  unfold Files.ensureDirectory at h
  split at h
  · rename_i hmake
    exact .inl (hmake.trans h)
  · split at h
    · exact .inr (Except.ok.inj h)
    · cases h

/-- Directories that are missing are made one by one. -/
theorem leaves_makeFirst {paths : List Path} (hpaths : ∀ above ∈ paths, above ∈ path.ancestors)
    (h : Leaves (.makeDirectories path) files s) :
    Leaves (.makeDirectories path) files (Files.makeFirst paths s).2 := by
  induction paths generalizing s with
  | nil => exact h
  | cons above paths ih =>
    have habove := hpaths above List.mem_cons_self
    have hrest := ih (fun other hother => hpaths other (List.mem_cons_of_mem _ hother)) h
    unfold Files.makeFirst
    split
    · exact h
    split
    · rename_i hmake
      exact .made h habove hmake
    · split
      · rename_i hfirst
        rw [hfirst] at hrest
        exact hrest
      · rename_i hfirst
        rw [hfirst] at hrest
        split
        · rename_i hensure
          rcases ensureDirectory_ok hensure with hmake | rfl
          · exact .made hrest habove hmake
          · exact hrest
        · exact hrest
    · split
      · exact h
      · exact h

/-- What a change makes of the files is one of the states that it may leave behind. -/
theorem leaves_apply (change : FileChange) (files : Files) :
    change.Leaves files (change.apply files).2 := by
  cases change with
  | makeDirectories path => exact leaves_makeFirst (fun _ h => h) (.untouched _ files)
  | write path content =>
    cases hwrite : files.write path content with
    | error fault =>
      simp only [apply, hwrite, Files.changed]
      exact .untouched _ files
    | ok s =>
      simp only [apply, hwrite, Files.changed]
      refine .torn content.size ?_
      rw [ByteArray.extract_zero_size]
      exact hwrite
  | rename source path =>
    cases hrename : files.rename source path with
    | error fault =>
      simp only [apply, hrename, Files.changed]
      exact .untouched _ files
    | ok s =>
      simp only [apply, hrename, Files.changed]
      exact .renamed hrename
  | remove path =>
    cases hremove : files.remove path with
    | error fault =>
      simp only [apply, hremove, Files.changed]
      exact .untouched _ files
    | ok s =>
      simp only [apply, hremove, Files.changed]
      exact .removed hremove

theorem leaves_of_apply {change : FileChange} {answer : Except FileFault Unit}
    (h : change.apply files = (answer, s)) : change.Leaves files s := by
  have hleaves := change.leaves_apply files
  rwa [h] at hleaves

end FileChange

/-! ## Tasks -/

namespace FileTask

variable {α β : Type} {task : FileTask α} {files s : Files}

/-- A task that runs to its end is cut off last of all. -/
theorem cutOff_run (task : FileTask α) (files : Files) : task.CutOff files (task.run files).2 := by
  induction task generalizing files with
  | done result => exact .here _ files
  | read path next ih => exact .read (ih _ files)
  | check path next ih => exact .check (ih _ files)
  | change step next ih => exact .after (ih _ _)

theorem CutOff.eq_of_done {result : α} (h : (done result).CutOff files s) : s = files := by
  cases h
  rfl

/-- What a task is followed by does not matter if that changes no files. -/
theorem CutOff.of_bind {next : α → FileTask β} (hnext : ∀ a, ∃ b, next a = .done b)
    (h : (task.bind next).CutOff files s) : task.CutOff files s := by
  induction task generalizing files with
  | done result =>
    obtain ⟨b, hb⟩ := hnext result
    rw [bind, hb] at h
    rw [h.eq_of_done]
    exact .here _ files
  | read path rest ih =>
    rw [bind] at h
    cases h with
    | here => exact .here _ _
    | read h => exact .read (ih _ h)
  | check path rest ih =>
    rw [bind] at h
    cases h with
    | here => exact .here _ _
    | check h => exact .check (ih _ h)
  | change step rest ih =>
    rw [bind] at h
    cases h with
    | here => exact .here _ _
    | within leaves => exact .within leaves
    | failed fault leaves h => exact .failed fault leaves (ih _ h)
    | after h => exact .after (ih _ h)

/-- A list of changes is cut off in the first one, or later after the first one succeeded. -/
theorem CutOff.changeAll_cons {step : FileChange} {steps : List FileChange}
    (h : (changeAll (step :: steps)).CutOff files s) :
    step.Leaves files s ∨
      ∃ mid, step.apply files = (.ok (), mid) ∧ (changeAll steps).CutOff mid s := by
  rw [changeAll] at h
  cases h with
  | here => exact .inl (.untouched step files)
  | within leaves => exact .inl leaves
  | failed fault leaves h =>
    rw [h.eq_of_done]
    exact .inl leaves
  | after h =>
    have hleaves := step.leaves_apply files
    cases happly : step.apply files with
    | mk answer mid =>
      rw [happly] at h hleaves
      cases answer with
      | ok => exact .inr ⟨mid, rfl, h⟩
      | error fault =>
        rw [h.eq_of_done]
        exact .inl hleaves

/-- A list of changes can be cut off where its rest can after the first ones succeeded. -/
theorem CutOff.changeAll_append {front steps : List FileChange} {mid : Files}
    (hfront : (changeAll front).run files = (.ok (), mid))
    (h : (changeAll steps).CutOff mid s) : (changeAll (front ++ steps)).CutOff files s := by
  induction front generalizing files with
  | nil =>
    cases hfront
    exact h
  | cons step front ih =>
    rw [changeAll, run] at hfront
    rw [List.cons_append, changeAll]
    refine .after ?_
    cases happly : step.apply files with
    | mk answer next =>
      rw [happly] at hfront
      cases answer with
      | ok => exact ih hfront
      | error fault => cases hfront

/-- A task that is cut off is so as well if another follows it. -/
theorem CutOff.bind (h : task.CutOff files s) (next : α → FileTask β) :
    (task.bind next).CutOff files s := by
  induction h with
  | here task files => exact .here _ files
  | read _ ih => exact .read ih
  | check _ ih => exact .check ih
  | within leaves => exact .within leaves
  | failed fault leaves _ ih => exact .failed fault leaves ih
  | after _ ih => exact .after ih

theorem CutOff.changeAll_nil (h : (changeAll []).CutOff files s) : s = files := h.eq_of_done

end FileTask

end RecordQuery
