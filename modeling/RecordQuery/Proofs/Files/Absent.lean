/-
RecordQuery.Proofs.Files.Absent — paths at which nothing stands.

That a path names nothing can have two reasons: its directory is there and has no
such name, or a directory above it is missing. In the first case making the
directories above it does nothing. In the second case it opens the way, and what
stands at its end is seen only then: the path may lead up again to a file that
was there before, or its last name may be longer than a name can be. A path
stays absent if it names nothing whatever of the missing directories is made.

Main statements:
* `Files.eq_of_leaves_makeDirectories` — no directory is missing above a path that was entered;
* `Files.held?_of_leaves_makeDirectories` — a path that leads down holds what it held;
* `Files.remove_of_find_notFound`, `Files.remove_of_find_file` — removing what is and is not there;
* `Files.staysAbsent_of_leadsDown` — a path with proper names that leads down stays absent.
-/
import RecordQuery.Proofs.Files.CutOff
import RecordQuery.Proofs.Files.Held

namespace RecordQuery.Files

variable {files mid s : Files} {path parent other : Path} {place here there : Location}
  {names : List String} {node : FileNode} {content : ByteArray}

/-- The path names nothing, whatever of the missing directories above it is made. -/
structure StaysAbsent (files : Files) (path : Path) : Prop where
  find : files.find path = .error .notFound
  find_of_leaves : ∀ parent ∈ path.parent?, ∀ s,
    (FileChange.makeDirectories parent).Leaves files s → s.find path = .error .notFound

/-! ## Paths whose directory is there -/

theorem hasDirectory_of_target {target : Target} (h : files.target path = .ok target) :
    files.HasDirectory path := by
  obtain ⟨-, here, hhere, -⟩ := target_eq_ok.1 h
  exact ⟨here, hhere⟩

theorem hasDirectory_of_find (h : files.find path = .ok node) : files.HasDirectory path := by
  rw [find_eq] at h
  obtain ⟨target, htarget, -⟩ := Except.bind_eq_ok.1 h
  exact hasDirectory_of_target htarget

/-- No directory is made on a way that is there. -/
theorem makeDirectory_ne_ok (h : files.HasDirectory path)
    (htext : other.text.toList <+: path.text.toList)
    (hnames : other.names <+: path.names.dropLast) : files.makeDirectory other ≠ .ok s := by
  intro hmake
  obtain ⟨here, hhere⟩ := h
  obtain ⟨place, slash, htarget, hnone, -⟩ := makeDirectory_ok hmake
  obtain ⟨hne, front, name, there, hother, hname, henter, rfl⟩ := exists_enter_of_target htarget
  have hbase : files.base other = files.base path := by
    unfold base
    rw [Path.isAbsolute_of_isPrefix hne htext]
  rw [hbase] at henter
  rw [hother] at hnames
  exact not_prefix_of_missing hname henter hnone hhere hnames

/-- Where the directory of a path is there, none above it is missing. -/
theorem eq_of_leaves_makeDirectories (h : files.HasDirectory path)
    (hparent : path.parent? = some parent)
    (hleaves : (FileChange.makeDirectories parent).Leaves files s) : s = files := by
  have hprefix := Path.parent?_spec hparent
  refine hleaves.makeDirectories_induction ?_ ?_
  · rfl
  · rintro mid s above - hmem hmake rfl
    have habove := Path.ancestors_isPrefix hmem
    exact absurd hmake (makeDirectory_ne_ok h (habove.1.trans hprefix.1)
      (habove.2.trans hprefix.2))

/-- What is not in a directory that is there stays absent. -/
theorem StaysAbsent.of_hasDirectory (h : files.HasDirectory path)
    (hfind : files.find path = .error .notFound) : files.StaysAbsent path where
  find := hfind
  find_of_leaves parent hparent s hleaves := by
    rwa [eq_of_leaves_makeDirectories h hparent hleaves]

/-! ## Making directories -/

/-- Directories that are made in two goes could have been made in one. -/
theorem leaves_makeDirectories_trans (h : (FileChange.makeDirectories path).Leaves files mid)
    (hrest : (FileChange.makeDirectories path).Leaves mid s) :
    (FileChange.makeDirectories path).Leaves files s := by
  exact hrest.makeDirectories_induction h fun _ hmem hmake hbefore => .made hbefore hmem hmake

theorem StaysAbsent.of_leaves (h : files.StaysAbsent path) (hparent : path.parent? = some parent)
    (hleaves : (FileChange.makeDirectories parent).Leaves files s) : s.StaysAbsent path where
  find := h.find_of_leaves parent hparent s hleaves
  find_of_leaves other hother t hrest := by
    cases hparent.symm.trans hother
    exact h.find_of_leaves parent hparent t (leaves_makeDirectories_trans hleaves hrest)

/-- While the directories above a path are made the path holds what it held. -/
theorem held?_of_leaves_makeDirectories (htree : files.IsTree) (hpath : path.NamesFile)
    (hdown : files.LeadsDown path) (hparent : path.parent? = some parent)
    (h : (FileChange.makeDirectories parent).Leaves files s) :
    s.held? path = files.held? path := by
  suffices hall : s.held? path = files.held? path ∧ s.IsTree ∧ s.LeadsDown path from hall.1
  have hprefix := Path.parent?_spec hparent
  refine h.makeDirectories_induction ?_ ?_
  · exact ⟨rfl, htree, hdown⟩
  · rintro mid s above - hmem hmake ⟨hheld, htree, hdown⟩
    have habove := Path.ancestors_isPrefix hmem
    have hkeeps := keepsDirectories_of_makeDirectory hmake
    refine ⟨?_, htree.makeDirectory hmake, hkeeps.leadsDown hdown⟩
    rw [held?_makeDirectory htree hpath hdown (habove.1.trans hprefix.1)
      (habove.2.trans hprefix.2) hmake, hheld]

/-- Making directories makes no file. -/
theorem node?_of_leaves_makeDirectories (hleaves : (FileChange.makeDirectories path).Leaves files s) :
    files.KeepsDirectories s ∧ ∀ place content,
      s.node? place = some (.file content) → files.node? place = some (.file content) := by
  refine hleaves.makeDirectories_induction ?_ ?_
  · exact ⟨.refl files, fun _ _ hnode => hnode⟩
  · rintro mid s above - - hmake ⟨hkeeps, hfiles⟩
    refine ⟨hkeeps.trans (keepsDirectories_of_makeDirectory hmake), fun place content hnode => ?_⟩
    obtain ⟨made, slash, htarget, hnone, rfl⟩ := makeDirectory_ok hmake
    refine hfiles place content ?_
    by_cases hplace : place = made
    · rw [hplace, node?_put_self (ne_nil_of_target htarget)] at hnode
      cases hnode
    · rwa [node?_put_of_ne hplace] at hnode

/-! ## Removing -/

theorem remove_of_find_notFound (h : files.find path = .error .notFound) :
    files.remove path = .error .notFound := by
  rw [find_eq] at h
  show (files.target path).bind _ = _
  cases htarget : files.target path with
  | error fault =>
    rw [htarget] at h
    cases h
    rfl
  | ok target =>
    rw [htarget] at h
    cases target with
    | entered => cases h
    | entry place slash =>
      change files.atTarget (.entry place slash) = _ at h
      cases hnode : files.node? place with
      | none => simp [Except.bind, hnode]
      | some node => cases node <;> cases slash <;> simp [atTarget, hnode] at h

/-- A path that names a file leads to it. -/
theorem target_of_find_file (h : files.find path = .ok (.file content)) :
    ∃ place, files.target path = .ok (.entry place false) ∧
      files.node? place = some (.file content) := by
  rw [find_eq] at h
  obtain ⟨target, htarget, h⟩ := Except.bind_eq_ok.1 h
  cases target with
  | entered => cases h
  | entry place slash =>
    unfold atTarget at h
    cases hnode : files.node? place with
    | none => simp [hnode] at h
    | some node =>
      cases node <;> cases slash <;> simp [hnode] at h
      exact ⟨place, htarget, by rw [hnode, h]⟩

/-- A file that is there can be removed, and is absent then. -/
theorem remove_of_find_file (h : files.find path = .ok (.file content)) :
    ∃ s, files.remove path = .ok s ∧ s.StaysAbsent path := by
  obtain ⟨place, htarget, hnode⟩ := target_of_find_file h
  have hkeeps : files.KeepsDirectories (files.erase place) := .erase (by simp [hnode])
  refine ⟨files.erase place, ?_, .of_hasDirectory (hkeeps.hasDirectory (hasDirectory_of_find h)) ?_⟩
  · refine Except.bind_eq_ok.2 ⟨_, htarget, ?_⟩
    simp [hnode]
  · rw [find_eq, hkeeps.target htarget]
    show (files.erase place).atTarget (.entry place false) = _
    rw [atTarget, node?_erase_self (ne_nil_of_target htarget)]

/-! ## Paths with proper names that lead down -/

theorem step_eq_notDirectory {name : String} :
    files.step here name = .error .notDirectory ↔
      IsProper name ∧ ∃ content, files.node? (here ++ [name]) = some (.file content) := by
  simp [step_eq_error]

/-- A way ends early at a missing directory, at a file or at a name that is too long. -/
theorem enter_eq_error {fault : FileFault} (h : files.enter here names = .error fault) :
    fault = .notFound ∨ fault = .notDirectory ∨
      ∃ name ∈ names, maxNameBytes < name.utf8ByteSize := by
  induction names generalizing here with
  | nil => cases h
  | cons name names ih =>
    rw [enter_cons] at h
    cases hstep : files.step here name with
    | ok next =>
      rw [hstep] at h
      exact (ih h).imp_right (.imp_right fun ⟨other, hother, hlong⟩ =>
        ⟨other, List.mem_cons_of_mem _ hother, hlong⟩)
    | error other =>
      rw [hstep] at h
      cases h
      rcases step_eq_error.1 hstep with ⟨-, -, -, hlong⟩ | ⟨-, ⟨hfault, -⟩ | ⟨hfault, -⟩⟩
      · exact .inr (.inr ⟨name, List.mem_cons_self, hlong⟩)
      · exact .inl hfault
      · exact .inr (.inl hfault)

/-- A file on a way that leads down is met also if fewer directories are there. -/
theorem IsTree.enter_notDirectory (h : files.IsTree)
    (hfiles : ∀ place content, s.node? place = some (.file content) →
      files.node? place = some (.file content)) (hup : ".." ∉ names)
    (henter : s.enter here names = .error .notDirectory) :
    files.enter here names = .error .notDirectory ∧ files.node? here = some .directory := by
  induction names generalizing here with
  | nil => cases henter
  | cons name names ih =>
    rw [List.mem_cons, not_or] at hup
    rw [enter_cons] at henter ⊢
    cases hstep : s.step here name with
    | error fault =>
      rw [hstep] at henter
      cases henter
      obtain ⟨hname, content, hnode⟩ := step_eq_notDirectory.1 hstep
      have hfile := hfiles _ content hnode
      have habove := h.node?_dropLast hfile
      rw [List.dropLast_concat] at habove
      rw [step_eq_notDirectory.2 ⟨hname, content, hfile⟩]
      exact ⟨rfl, habove⟩
    | ok next =>
      rw [hstep] at henter
      obtain ⟨hrest, hnext⟩ := ih hup.2 henter
      rcases step_eq_ok.1 hstep with ⟨hdot, rfl⟩ | ⟨hdots, -⟩ | ⟨hname, rfl, -⟩
      · rw [step_eq_ok.2 (.inl ⟨hdot, rfl⟩)]
        exact ⟨hrest, hnext⟩
      · exact absurd hdots.symm hup.1
      · have habove := h.node?_dropLast hnext
        rw [List.dropLast_concat] at habove
        rw [step_eq_ok.2 (.inr (.inr ⟨hname, rfl, hnext⟩))]
        exact ⟨hrest, habove⟩

/-- A path fails as its text does, or as the way to its directory does. -/
theorem find_of_textFault {fault : FileFault} (h : textFault? path = some fault) (files : Files) :
    files.find path = .error fault := by
  rw [find_eq, target_eq, h]
  rfl

theorem find_of_enter_error {fault : FileFault} (htext : textFault? path = none)
    (h : files.enter (files.base path) path.names.dropLast = .error fault) :
    files.find path = .error fault := by
  rw [find_eq, target_eq, htext, h]
  rfl

/-- A path with proper names that names nothing is missing, or a file is on the way. -/
theorem find_eq_error {fault : FileFault} (hpath : path.NamesFile)
    (hnames : ∀ name ∈ path.names, name.utf8ByteSize ≤ maxNameBytes)
    (htext : textFault? path = none) (h : files.find path = .error fault) :
    fault = .notFound ∨
      files.enter (files.base path) path.names.dropLast = .error .notDirectory := by
  obtain ⟨hslash, name, hname, hdot, hup⟩ := hpath
  cases henter : files.enter (files.base path) path.names.dropLast with
  | error other =>
    rw [find_of_enter_error htext henter] at h
    cases h
    rcases enter_eq_error henter with hmissing | rfl | ⟨long, hlong, hbytes⟩
    · exact .inl hmissing
    · exact .inr rfl
    · exact absurd (hnames long (List.dropLast_subset _ hlong)) (Nat.not_le.2 hbytes)
  | ok here =>
    have hshort := Nat.not_lt.2 (hnames name (List.mem_of_mem_getLast? hname))
    rw [find_eq, target_eq, htext, henter] at h
    simp only [Except.bind, lastTarget, Option.mem_def.1 hname, hdot, hup, hshort, hslash, if_false,
      atTarget] at h
    cases hnode : files.node? (here ++ [name]) with
    | none => simp_all
    | some node => cases node <;> simp_all

/-- A path stays absent if none of its names is too long and it leads up only where directories are
there. -/
theorem staysAbsent_of_leadsDown (htree : files.IsTree) (hpath : path.NamesFile)
    (hdown : files.LeadsDown path)
    (hnames : ∀ name ∈ path.names, name.utf8ByteSize ≤ maxNameBytes)
    (hfind : files.find path = .error .notFound) : files.StaysAbsent path where
  find := hfind
  find_of_leaves parent hparent s hleaves := by
    have hheld := held?_of_leaves_makeDirectories htree hpath hdown hparent hleaves
    obtain ⟨hkeeps, hfiles⟩ := node?_of_leaves_makeDirectories hleaves
    cases htext : textFault? path with
    | some fault =>
      rw [find_of_textFault htext] at hfind ⊢
      exact hfind
    | none =>
      cases hs : s.find path with
      | ok node =>
        unfold held? at hheld
        rw [hs, hfind] at hheld
        cases hheld
      | error fault =>
        rcases find_eq_error hpath hnames htext hs with rfl | henter
        · rfl
        -- Only directories were made. So the file that is on the way now was there before.
        obtain ⟨above, below, there, hway, habove, hbelow⟩ := hdown
        rw [hkeeps.base_eq, hway, enter_append, hkeeps.enter habove] at henter
        have hbefore : files.enter (files.base path) path.names.dropLast =
            .error .notDirectory := by
          rw [hway, enter_append, habove]
          exact (htree.enter_notDirectory hfiles hbelow henter).1
        rw [find_of_enter_error htext hbefore] at hfind
        cases hfind

end RecordQuery.Files
