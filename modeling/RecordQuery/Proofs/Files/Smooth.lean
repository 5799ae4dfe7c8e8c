/-
RecordQuery.Proofs.Files.Smooth — work in which no file operation fails.

`FileTask.smooth?` runs a task like `FileTask.run` and gives up at the first file
that cannot be read and the first change that cannot be made. Where nothing
fails, a directory and those above it are there after they were made, so making
them again does nothing. A path stays missing if it names nothing and names
nothing when its directory is made; whether there is a directory on the way does
not matter.

Main statements:
* `FileTask.run_of_smooth?`, `FileTask.smooth?_bind` — smooth work is work, step by step;
* `Files.makeDirectories_again` — directories that were made are there;
* `Files.eq_of_makeParent` — what a path names is kept when its directory is made;
* `Files.StaysMissing.makeParent` — and a path that stays missing stays so.
-/
import RecordQuery.Proofs.Files.Absent

namespace RecordQuery

namespace FileTask

variable {α β : Type} {task : FileTask α} {result : α} {files s : Files}

/-- The result of a task and the files after it, if no file operation fails. -/
def smooth? : FileTask α → Files → Option (α × Files)
  | .done result, files => some (result, files)
  | .read path next, files =>
    match files.read path with
    | .ok content => (next (.ok content)).smooth? files
    | .error _ => none
  | .check path next, files => (next (files.contains path)).smooth? files
  | .change step next, files =>
    match step.apply files with
    | (.ok (), files) => (next (.ok ())).smooth? files
    | (.error _, _) => none

/-- Smooth work is one way to run a task. -/
theorem run_of_smooth? (h : task.smooth? files = some (result, s)) :
    task.run files = (result, s) := by
  induction task generalizing files with
  | done found => cases h; rfl
  | read path next ih =>
    rw [smooth?] at h
    rw [run]
    cases hread : files.read path with
    | error fault => rw [hread] at h; cases h
    | ok content => rw [hread] at h; exact ih _ h
  | check path next ih => exact ih _ h
  | change step next ih =>
    rw [smooth?] at h
    rw [run]
    cases happly : step.apply files with
    | mk answer mid =>
      rw [happly] at h
      cases answer with
      | error fault => cases h
      | ok => exact ih _ h

/-- A task after another is smooth if both are. -/
theorem smooth?_bind (task : FileTask α) (next : α → FileTask β) (files : Files) :
    (task.bind next).smooth? files =
      (task.smooth? files).bind fun found => (next found.1).smooth? found.2 := by
  induction task generalizing files with
  | done result => rfl
  | read path rest ih =>
    rw [bind, smooth?, smooth?]
    cases files.read path with
    | error fault => rfl
    | ok content => exact ih _ files
  | check path rest ih => exact ih _ files
  | change step rest ih =>
    rw [bind, smooth?, smooth?]
    cases step.apply files with
    | mk answer mid =>
      cases answer with
      | error fault => rfl
      | ok => exact ih _ mid

/-- A single change is smooth if it succeeds. -/
theorem smooth?_changeAll_singleton {step : FileChange}
    {result : Except (FileChange × FileFault) Unit} :
    (changeAll [step]).smooth? files = some (result, s) ↔
      result = .ok () ∧ step.apply files = (.ok (), s) := by
  rw [changeAll, smooth?]
  cases step.apply files with
  | mk answer mid =>
    cases answer with
    | error fault => simp
    | ok =>
      show some (Except.ok (), mid) = some (result, s) ↔ _
      simp [eq_comm]

end FileTask

namespace Files

variable {files s : Files} {path parent above : Path} {paths : List Path}

/-! ## Directories that were made -/

theorem isDirectory_of_makeDirectory (h : files.makeDirectory path = .ok s) :
    s.isDirectory path = true := by
  have hkeeps := keepsDirectories_of_makeDirectory h
  obtain ⟨place, slash, htarget, hnone, rfl⟩ := makeDirectory_ok h
  have hfind : (files.put place .directory).find path = .ok .directory := by
    rw [find_eq, hkeeps.target htarget]
    show (files.put place .directory).atTarget (.entry place slash) = _
    rw [atTarget, node?_put_self (ne_nil_of_target htarget)]
  rw [isDirectory, hfind]

theorem isDirectory_of_ensureDirectory (h : files.ensureDirectory path = .ok s) :
    s.isDirectory path = true := by
  unfold ensureDirectory at h
  split at h
  · rename_i hmake
    cases h
    exact isDirectory_of_makeDirectory hmake
  · split at h
    · rename_i hdirectory
      cases h
      exact hdirectory
    · cases h

/-- The first of the directories that were made is there. -/
theorem isDirectory_of_makeFirst (h : makeFirst (path :: paths) files = (.ok (), s)) :
    path.text.isEmpty = true ∨ s.isDirectory path = true := by
  rw [makeFirst] at h
  split at h
  · rename_i hempty
    exact .inl hempty
  refine .inr ?_
  split at h
  · rename_i hmake
    cases h
    exact isDirectory_of_makeDirectory hmake
  · split at h
    · cases h
    · split at h
      · rename_i hensure
        cases h
        exact isDirectory_of_ensureDirectory hensure
      · cases h
  · split at h
    · rename_i hdirectory
      cases h
      exact hdirectory
    · cases h

/-- A directory that is there cannot be made. -/
theorem makeDirectory_of_isDirectory (h : files.isDirectory path = true) :
    files.makeDirectory path = .error .alreadyExists := by
  have hfind : files.find path = .ok .directory := by
    unfold isDirectory at h
    split at h
    · assumption
    · cases h
  rw [find_eq] at hfind
  obtain ⟨target, htarget, hfind⟩ := Except.bind_eq_ok.1 hfind
  show (files.target path).bind _ = _
  rw [htarget]
  cases target with
  | entered => rfl
  | entry place slash =>
    rw [atTarget] at hfind
    cases hnode : files.node? place with
    | none => simp [hnode] at hfind
    | some node => simp [Except.bind, hnode]

/-- Directories that were made are there, so to make them again does nothing. -/
theorem makeDirectories_again (h : files.makeDirectories path = (.ok (), s)) :
    s.makeDirectories path = (.ok (), s) := by
  rw [makeDirectories, Path.ancestors, Path.climb] at h ⊢
  rw [makeFirst]
  split
  · rfl
  · rename_i hempty
    have hdirectory := (isDirectory_of_makeFirst h).resolve_left hempty
    rw [makeDirectory_of_isDirectory hdirectory]
    simp [hdirectory]

/-! ## Paths that name something, and paths that do not -/

theorem contains_of_find {node : FileNode} (h : files.find path = .ok node) :
    files.contains path = true := by
  rw [contains, h]
  rfl

theorem held?_eq_none_iff : files.held? path = none ↔ files.contains path = false := by
  unfold held? contains
  cases files.find path with
  | error fault => exact iff_of_true rfl rfl
  | ok node => exact iff_of_false nofun nofun

/-- The directory of a path is made, with all that are missing above it. -/
def makeParent (files : Files) (path : Path) : Except FileFault Unit × Files :=
  match path.parent? with
  | none => (.ok (), files)
  | some parent => files.makeDirectories parent

theorem makeParent_again (h : files.makeParent path = (.ok (), s)) :
    s.makeParent path = (.ok (), s) := by
  unfold makeParent at h ⊢
  cases hparent : path.parent? with
  | none => rfl
  | some parent =>
    rw [hparent] at h
    exact makeDirectories_again h

/-- Where a path names something, none of the directories above it is missing. -/
theorem eq_of_makeParent (h : files.contains path = true)
    (hmake : files.makeParent path = (.ok (), s)) : s = files := by
  obtain ⟨node, hfind⟩ : ∃ node, files.find path = .ok node := by
    unfold contains at h
    cases hfind : files.find path with
    | error fault => rw [hfind] at h; cases h
    | ok node => exact ⟨node, rfl⟩
  unfold makeParent at hmake
  cases hparent : path.parent? with
  | none =>
    rw [hparent] at hmake
    cases hmake
    rfl
  | some parent =>
    rw [hparent] at hmake
    exact eq_of_leaves_makeDirectories (hasDirectory_of_find hfind) hparent
      (FileChange.leaves_of_apply hmake)

/-- The path names nothing, and nothing either when its directory is made. -/
structure StaysMissing (files : Files) (path : Path) : Prop where
  missing : files.contains path = false
  made : ∀ s, files.makeParent path = (.ok (), s) → s.contains path = false

theorem StaysMissing.makeParent (h : files.StaysMissing path)
    (hmake : files.makeParent path = (.ok (), s)) : s.StaysMissing path where
  missing := h.made s hmake
  made t hagain := by
    rw [makeParent_again hmake] at hagain
    cases hagain
    exact h.made s hmake

end Files

end RecordQuery
