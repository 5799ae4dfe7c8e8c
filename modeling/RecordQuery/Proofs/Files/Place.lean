/-
RecordQuery.Proofs.Files.Place — where paths lead while files change.

A path is walked over directories alone. So a change that takes no directory
away leaves every path that led somewhere leading there (`KeepsDirectories`),
and what is found there changes only at the place that the change is about.
Each change that succeeds is told here by the place at which it put or took a
node.

Main statements:
* `node?_put_self`, `node?_put_of_ne`, `node?_erase_of_ne` — what is at a place after a change;
* `step_eq_ok`, `step_eq_error` — all that one name of a path can do;
* `KeepsDirectories.enter`, `KeepsDirectories.target` — paths lead where they led;
* `makeDirectory_ok`, `write_ok`, `rename_ok` — what a change did that succeeded.
-/
import RecordQuery.Files.Basic
import RecordQuery.Proofs.Except

namespace RecordQuery.Files

variable {files s : Files} {place other here : Location} {node : FileNode} {path source : Path}

/-! ## Nodes -/

theorem lookup_filter_ne (h : other ≠ place) (nodes : List (Location × FileNode)) :
    (nodes.filter fun entry => entry.1 != place).lookup other = nodes.lookup other := by
  induction nodes with
  | nil => rfl
  | cons entry nodes ih =>
    obtain ⟨key, node⟩ := entry
    by_cases hkey : key = place
    · subst hkey
      have hother : (other == key) = false := by simpa using h
      simp [List.lookup_cons, hother, ih]
    · by_cases hother : other = key
      · simp [hother, hkey]
      · have hne : (other == key) = false := by simpa using hother
        simp [hkey, List.lookup_cons, hne, ih]

theorem node?_put_self (h : place ≠ []) : (files.put place node).node? place = some node := by
  simp [node?, put, h]

theorem node?_put_of_ne (h : other ≠ place) :
    (files.put place node).node? other = files.node? other := by
  have hother : (other == place) = false := by simpa using h
  simp only [node?, put, List.lookup_cons, hother, lookup_filter_ne h]

theorem node?_erase_of_ne (h : other ≠ place) :
    (files.erase place).node? other = files.node? other := by
  simp only [node?, erase, lookup_filter_ne h]

theorem node?_erase_self (h : place ≠ []) : (files.erase place).node? place = none := by
  have hnone : (files.nodes.filter fun entry => entry.1 != place).lookup place = none := by
    rw [List.lookup_eq_none_iff]
    intro entry hentry
    have := (List.mem_filter.1 hentry).2
    rw [bne_iff_ne] at this
    simpa using this.symm
  simp only [node?, erase, hnone]
  simp [h]

/-! ## Changes that take no directory away -/

/-- What was a directory is one still, and relative paths begin where they began. -/
structure KeepsDirectories (files s : Files) : Prop where
  current : s.current = files.current
  directory : ∀ place, files.node? place = some .directory → s.node? place = some .directory

namespace KeepsDirectories

theorem refl (files : Files) : files.KeepsDirectories files := ⟨rfl, fun _ h => h⟩

theorem trans {t : Files} (h : files.KeepsDirectories s) (h' : s.KeepsDirectories t) :
    files.KeepsDirectories t :=
  ⟨h'.current.trans h.current, fun place hplace => h'.directory place (h.directory place hplace)⟩

theorem put (h : files.node? place ≠ some .directory) (node : FileNode) :
    files.KeepsDirectories (files.put place node) where
  current := rfl
  directory other hother := by
    have hne : other ≠ place := by rintro rfl; exact h hother
    rw [node?_put_of_ne hne]
    exact hother

theorem erase (h : files.node? place ≠ some .directory) :
    files.KeepsDirectories (files.erase place) where
  current := rfl
  directory other hother := by
    have hne : other ≠ place := by rintro rfl; exact h hother
    rw [node?_erase_of_ne hne]
    exact hother

end KeepsDirectories

/-! ## Walking -/

/-- A name that names something: no dots, and not too long. -/
def IsProper (name : String) : Prop :=
  name ≠ "." ∧ name ≠ ".." ∧ name.utf8ByteSize ≤ maxNameBytes

/-- Where one name leads from a directory. -/
def step (files : Files) (here : Location) (name : String) : Except FileFault Location :=
  if name = "." then .ok here
  else if name = ".." then .ok here.dropLast
  else if maxNameBytes < name.utf8ByteSize then .error .nameTooLong
  else
    match files.node? (here ++ [name]) with
    | none => .error .notFound
    | some (.file _) => .error .notDirectory
    | some .directory => .ok (here ++ [name])

theorem enter_cons (files : Files) (here : Location) (name : String) (names : List String) :
    files.enter here (name :: names) =
      (files.step here name).bind fun next => files.enter next names := by
  rw [enter, step]
  split
  · rfl
  split
  · rfl
  split
  · rfl
  cases files.node? (here ++ [name]) with
  | none => rfl
  | some node => cases node <;> rfl

/-- All that one name can do: nothing, lead back up, or lead into a directory of this name. -/
theorem step_eq_ok {name : String} :
    files.step here name = .ok place ↔
      name = "." ∧ place = here ∨ name = ".." ∧ place = here.dropLast ∨
        IsProper name ∧ place = here ++ [name] ∧ files.node? (here ++ [name]) = some .directory := by
  rw [step]
  split
  · rename_i hdot
    simp [hdot, IsProper, eq_comm]
  split
  · rename_i hup
    simp [hup, IsProper, eq_comm]
  split
  · rename_i hlong
    simp [*, IsProper, Nat.not_le.2 hlong]
  rename_i hdot hup hlong
  cases files.node? (here ++ [name]) with
  | none => simp [hdot, hup]
  | some node => cases node <;> simp [hdot, hup, IsProper, Nat.not_lt.1 hlong, eq_comm]

/-- All for which one name leads nowhere: its length, a missing directory, or a file of this name. -/
theorem step_eq_error {name : String} {fault : FileFault} :
    files.step here name = .error fault ↔
      fault = .nameTooLong ∧ name ≠ "." ∧ name ≠ ".." ∧ maxNameBytes < name.utf8ByteSize ∨
        IsProper name ∧ (fault = .notFound ∧ files.node? (here ++ [name]) = none ∨
          fault = .notDirectory ∧ ∃ content, files.node? (here ++ [name]) = some (.file content)) := by
  rw [step]
  split
  · rename_i hdot
    simp [hdot, IsProper]
  split
  · rename_i hup
    simp [hup, IsProper]
  split
  · rename_i hdot hup hlong
    simp [hdot, hup, hlong, IsProper, Nat.not_le.2 hlong, eq_comm]
  rename_i hdot hup hlong
  cases files.node? (here ++ [name]) with
  | none => simp [hdot, hup, hlong, IsProper, Nat.not_lt.1 hlong, eq_comm]
  | some node => cases node <;> simp [hdot, hup, hlong, IsProper, Nat.not_lt.1 hlong, eq_comm]

theorem KeepsDirectories.step (h : files.KeepsDirectories s) {name : String}
    (hstep : files.step here name = .ok place) : s.step here name = .ok place := by
  rcases step_eq_ok.1 hstep with hdot | hup | ⟨hname, hplace, hnode⟩
  · exact step_eq_ok.2 (.inl hdot)
  · exact step_eq_ok.2 (.inr (.inl hup))
  · exact step_eq_ok.2 (.inr (.inr ⟨hname, hplace, h.directory _ hnode⟩))

/-- A way that could be walked can still be walked, to the same place. -/
theorem KeepsDirectories.enter (h : files.KeepsDirectories s) {names : List String}
    (henter : files.enter here names = .ok place) : s.enter here names = .ok place := by
  induction names generalizing here with
  | nil => exact henter
  | cons name names ih =>
    rw [enter_cons] at henter ⊢
    obtain ⟨next, hnext, henter⟩ := Except.bind_eq_ok.1 henter
    exact Except.bind_eq_ok.2 ⟨next, h.step hnext, ih henter⟩

/-! ## Where a path leads -/

/-- The directory from which a path is walked. -/
def base (files : Files) (path : Path) : Location := if path.isAbsolute then [] else files.current

/-- A fault of a path whatever the files are: its text cannot be walked at all. -/
def textFault? (path : Path) : Option FileFault :=
  if '\x00' ∈ path.text.toList then some .zeroInName
  else if path.text.isEmpty then some .notFound
  else if maxPathBytes < path.text.utf8ByteSize then some .nameTooLong
  else none

/-- Where the last name of a path leads from the directory that was entered on the way. -/
def lastTarget (path : Path) (here : Location) : Except FileFault Target :=
  match path.names.getLast? with
  | none => .ok (.entered here)
  | some name =>
    if name = "." then .ok (.entered here)
    else if name = ".." then .ok (.entered here.dropLast)
    else if maxNameBytes < name.utf8ByteSize then .error .nameTooLong
    else .ok (.entry (here ++ [name]) path.endsInSlash)

theorem target_eq (files : Files) (path : Path) :
    files.target path =
      match textFault? path with
      | some fault => .error fault
      | none => (files.enter (files.base path) path.names.dropLast).bind (lastTarget path) := by
  rw [target, textFault?]
  split
  · rfl
  split
  · rfl
  split
  · rfl
  · rfl

theorem target_eq_ok {target : Target} :
    files.target path = .ok target ↔ textFault? path = none ∧
      ∃ here, files.enter (files.base path) path.names.dropLast = .ok here ∧
        lastTarget path here = .ok target := by
  rw [target_eq]
  cases textFault? path with
  | some fault => simp
  | none => simp [Except.bind_eq_ok]

/-- The last name of a path that leads to a place in a directory is the name of this place. -/
theorem lastTarget_entry {slash : Bool} (h : lastTarget path here = .ok (.entry place slash)) :
    ∃ above name, path.names = above ++ [name] ∧ IsProper name ∧ place = here ++ [name] := by
  unfold lastTarget at h
  cases hname : path.names.getLast? with
  | none => simp [hname] at h
  | some name =>
    simp only [hname] at h
    split at h
    · cases h
    split at h
    · cases h
    split at h
    · cases h
    rename_i hdot hup hlong
    cases h
    obtain ⟨above, habove⟩ := List.getLast?_eq_some_iff.1 hname
    exact ⟨above, name, habove, ⟨hdot, hup, Nat.not_lt.1 hlong⟩, rfl⟩

theorem KeepsDirectories.base_eq (h : files.KeepsDirectories s) (path : Path) :
    s.base path = files.base path := by
  rw [base, base, h.current]

theorem KeepsDirectories.target (h : files.KeepsDirectories s) {target : Target}
    (htarget : files.target path = .ok target) : s.target path = .ok target := by
  obtain ⟨hfault, here, hhere, hlast⟩ := target_eq_ok.1 htarget
  exact target_eq_ok.2 ⟨hfault, here, h.base_eq path ▸ h.enter hhere, hlast⟩

theorem ne_nil_of_target {slash : Bool} (h : files.target path = .ok (.entry place slash)) :
    place ≠ [] := by
  obtain ⟨-, here, -, hlast⟩ := target_eq_ok.1 h
  obtain ⟨above, name, -, -, rfl⟩ := lastTarget_entry hlast
  simp

/-! ## Changes that succeeded -/

theorem makeDirectory_ok (h : files.makeDirectory path = .ok s) :
    ∃ place slash, files.target path = .ok (.entry place slash) ∧ files.node? place = none ∧
      s = files.put place .directory := by
  obtain ⟨target, htarget, h⟩ := Except.bind_eq_ok.1 h
  cases target with
  | entered => cases h
  | entry place slash =>
    cases hnode : files.node? place with
    | some node => simp [hnode] at h
    | none =>
      simp only [hnode, Except.ok.injEq] at h
      exact ⟨place, slash, htarget, hnode, h.symm⟩

theorem write_ok {content : ByteArray} (h : files.write path content = .ok s) :
    ∃ place, files.target path = .ok (.entry place false) ∧
      files.node? place ≠ some .directory ∧ s = files.put place (.file content) := by
  obtain ⟨target, htarget, h⟩ := Except.bind_eq_ok.1 h
  cases target with
  | entered => cases h
  | entry place slash =>
    cases slash with
    | true => cases h
    | false =>
      simp only [Bool.false_eq_true, if_false] at h
      split at h
      · cases h
      · rename_i hnode
        cases h
        exact ⟨place, htarget, hnode, rfl⟩

theorem rename_ok (h : files.rename source path = .ok s) :
    ∃ old new content, files.target source = .ok (.entry old false) ∧
      files.target path = .ok (.entry new false) ∧ files.node? old = some (.file content) ∧
      files.node? new ≠ some .directory ∧ s = (files.erase old).put new (.file content) := by
  obtain ⟨sourceTarget, hsource, h⟩ := Except.bind_eq_ok.1 h
  obtain ⟨target, htarget, h⟩ := Except.bind_eq_ok.1 h
  cases sourceTarget with
  | entered => cases h
  | entry old oldSlash =>
    cases target with
    | entered => cases h
    | entry new newSlash =>
      cases hnode : files.node? old with
      | none => simp [hnode] at h
      | some node =>
        cases node with
        | directory => simp [hnode] at h
        | file content =>
          cases oldSlash <;> cases newSlash <;> simp [hnode] at h
          split at h
          · cases h
          · rename_i hnew
            cases h
            exact ⟨old, new, content, hsource, htarget, hnode, hnew, rfl⟩

/-! ## What a path names -/

/-- What a path names that leads to this target. -/
def atTarget (files : Files) : Target → Except FileFault FileNode
  | .entered _ => .ok .directory
  | .entry place slash =>
    match files.node? place with
    | none => .error .notFound
    | some .directory => .ok .directory
    | some (.file content) => if slash then .error .notDirectory else .ok (.file content)

theorem find_eq (files : Files) (path : Path) :
    files.find path = (files.target path).bind files.atTarget := rfl

/-- A path that leads to a file names it. -/
theorem find_file {content : ByteArray} (htarget : files.target path = .ok (.entry place false))
    (hnode : files.node? place = some (.file content)) :
    files.find path = .ok (.file content) := by
  rw [find_eq, htarget]
  show files.atTarget (.entry place false) = _
  rw [atTarget, hnode]
  rfl

theorem read_of_find {content : ByteArray} (h : files.find path = .ok (.file content)) :
    files.read path = .ok content := by
  rw [read, h]
  rfl

/-- A file that was written is found, with all that was written. -/
theorem find_of_write {content : ByteArray} (h : files.write path content = .ok s) :
    s.find path = .ok (.file content) := by
  obtain ⟨place, htarget, hfile, rfl⟩ := write_ok h
  exact find_file ((KeepsDirectories.put hfile (.file content)).target htarget)
    (node?_put_self (ne_nil_of_target htarget))

/-- Whether a file can be written does not depend on what is written. -/
theorem exists_write {content : ByteArray} (h : files.write path content = .ok s)
    (other : ByteArray) : ∃ s, files.write path other = .ok s := by
  obtain ⟨place, htarget, hfile, -⟩ := write_ok h
  refine ⟨files.put place (.file other), Except.bind_eq_ok.2 ⟨_, htarget, ?_⟩⟩
  cases hnode : files.node? place with
  | none => simp [hnode]
  | some node =>
    cases node with
    | file => simp [hnode]
    | directory => exact absurd hnode hfile

/-- A file that was written and then moved is found under its new path, with all that was written. -/
theorem find_of_write_rename {written : Files} {content : ByteArray}
    (hwrite : files.write source content = .ok written)
    (hrename : written.rename source path = .ok s) : s.find path = .ok (.file content) := by
  obtain ⟨place, hplace, hfile, rfl⟩ := write_ok hwrite
  obtain ⟨old, new, moved, hold, hnew, hmoved, hnot, rfl⟩ := rename_ok hrename
  have hold' := (KeepsDirectories.put hfile (.file content)).target hplace
  obtain rfl : place = old := by
    rw [hold] at hold'
    cases hold'
    rfl
  obtain rfl : content = moved := by
    rw [node?_put_self (ne_nil_of_target hplace)] at hmoved
    cases hmoved
    rfl
  have hsource : (files.put place (.file content)).node? place ≠ some .directory := by
    rw [hmoved]
    simp
  have hnew' : ((files.put place (.file content)).erase place).node? new ≠ some .directory := by
    by_cases heq : new = place
    · rw [heq, node?_erase_self (ne_nil_of_target hplace)]
      simp
    · rwa [node?_erase_of_ne heq]
  have hkeeps := (KeepsDirectories.erase hsource).trans (.put hnew' (.file content))
  exact find_file (hkeeps.target hnew) (node?_put_self (ne_nil_of_target hnew))

end RecordQuery.Files
