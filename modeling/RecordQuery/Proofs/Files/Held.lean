/-
RecordQuery.Proofs.Files.Held — what a path holds while others are changed.

The way of a path and the place at its end decide what it holds. A file that is
written under another name in the same directory changes neither. A directory
that is made above the path opens the way to it, but nothing stands there yet —
unless the path leads up again out of the new directory.

Main statements:
* `Files.find_write`, `Files.held?_write` — a file is written beside the path;
* `Files.held?_makeDirectory` — a directory is made above the path.
-/
import RecordQuery.Proofs.Files.Path
import RecordQuery.Proofs.Files.Place

namespace RecordQuery.Files

variable {files s : Files} {place here there : Location} {path other : Path} {names : List String}

/-- What a path names, if anything. -/
def held? (files : Files) (path : Path) : Option FileNode := (files.find path).toOption

/-! ## The end of a path -/

/-- What is behind all names of a path: the last one is a name in the directory entered before. -/
def atEnd? (files : Files) (path : Path) : Option FileNode :=
  (files.enter (files.base path) path.names.dropLast).toOption.bind fun here =>
    files.node? (here ++ path.names.getLast?.toList)

/-- A path that names a file holds what is at its end, or its text is at fault and it never holds
anything. -/
theorem held?_eq_none_or_atEnd? (h : path.NamesFile) :
    (∀ files : Files, files.held? path = none) ∨
      ∀ files : Files, files.held? path = files.atEnd? path := by
  obtain ⟨hslash, name, hname, hdot, hup⟩ := h
  rw [Option.mem_def] at hname
  cases hfault : textFault? path with
  | some fault =>
    refine .inl fun files => ?_
    unfold held?
    rw [find_eq, target_eq, hfault]
    rfl
  | none =>
    by_cases hlong : maxNameBytes < name.utf8ByteSize
    · refine .inl fun files => ?_
      unfold held?
      rw [find_eq, target_eq, hfault]
      cases henter : files.enter (files.base path) path.names.dropLast with
      | error fault => rfl
      | ok here => simp [lastTarget, hname, hdot, hup, hlong, Except.bind, Except.toOption]
    · refine .inr fun files => ?_
      unfold held? atEnd?
      rw [find_eq, target_eq, hfault]
      cases henter : files.enter (files.base path) path.names.dropLast with
      | error fault => rfl
      | ok here =>
        simp only [lastTarget, hname, hdot, hup, hlong, hslash, if_false, Except.bind, atTarget,
          Except.toOption, Option.toList, Option.bind_some]
        cases files.node? (here ++ [name]) with
        | none => rfl
        | some node => cases node <;> rfl

theorem held?_congr (h : path.NamesFile) (heq : s.atEnd? path = files.atEnd? path) :
    s.held? path = files.held? path := by
  rcases held?_eq_none_or_atEnd? h with hnone | hend
  · rw [hnone, hnone]
  · rw [hend, hend, heq]

/-! ## Writing beside a path -/

/-- A path that leads to a place in a directory has a last name behind the way to the directory. -/
theorem exists_enter_of_target {slash : Bool}
    (htarget : files.target path = .ok (.entry place slash)) :
    path.text ≠ "" ∧ ∃ above name here, path.names = above ++ [name] ∧ IsProper name ∧
      files.enter (files.base path) above = .ok here ∧ place = here ++ [name] := by
  obtain ⟨hfault, here, henter, hlast⟩ := target_eq_ok.1 htarget
  constructor
  · intro htext
    rw [textFault?, htext] at hfault
    simp at hfault
  obtain ⟨above, name, habove, hname, rfl⟩ := lastTarget_entry hlast
  rw [habove, List.dropLast_concat] at henter
  exact ⟨above, name, here, habove, hname, henter, rfl⟩

/-- The directory is there to which all but the last name of a path lead. -/
def HasDirectory (files : Files) (path : Path) : Prop :=
  ∃ here, files.enter (files.base path) path.names.dropLast = .ok here

theorem KeepsDirectories.hasDirectory (h : files.KeepsDirectories s)
    (hdirectory : files.HasDirectory path) : s.HasDirectory path := by
  obtain ⟨here, hhere⟩ := hdirectory
  exact ⟨here, h.base_eq path ▸ h.enter hhere⟩

theorem base_put (files : Files) (place : Location) (node : FileNode) (path : Path) :
    (files.put place node).base path = files.base path := rfl

/-- A file with another name in the same directory: the path names what it named, and its directory
is there. -/
theorem find_write {above : List String} {name otherName : String} {content : ByteArray}
    (hpath : path.names = above ++ [name]) (hother : other.names = above ++ [otherName])
    (habsolute : other.isAbsolute = path.isAbsolute) (hne : otherName ≠ name)
    (hwrite : files.write other content = .ok s) :
    s.HasDirectory path ∧ s.find path = files.find path := by
  obtain ⟨place, htarget, hfile, rfl⟩ := write_ok hwrite
  have hkeeps : files.KeepsDirectories (files.put place (.file content)) := .put hfile _
  obtain ⟨-, above', last, here, hnames, -, hhere, rfl⟩ := exists_enter_of_target htarget
  obtain ⟨rfl, rfl⟩ := List.append_singleton_inj.1 (hother.symm.trans hnames)
  have hbase : files.base other = files.base path := by unfold base; rw [habsolute]
  rw [hbase] at hhere
  have hdirectory : files.HasDirectory path := ⟨here, by rwa [hpath, List.dropLast_concat]⟩
  refine ⟨hkeeps.hasDirectory hdirectory, ?_⟩
  have hsame : (files.put (here ++ [otherName]) (.file content)).target path =
      files.target path := by
    rw [target_eq, target_eq, hpath, List.dropLast_concat, base_put, hhere, hkeeps.enter hhere]
  rw [find_eq, find_eq, hsame]
  cases hpathTarget : files.target path with
  | error => rfl
  | ok target =>
    cases target with
    | entered => rfl
    | entry there slash =>
      obtain ⟨-, above', last, place, hnames, -, hplace, rfl⟩ := exists_enter_of_target hpathTarget
      obtain ⟨rfl, rfl⟩ := List.append_singleton_inj.1 (hpath.symm.trans hnames)
      cases hhere.symm.trans hplace
      have hends : here ++ [name] ≠ here ++ [otherName] := fun heq =>
        hne (List.singleton_inj.1 (List.append_cancel_left heq)).symm
      simp only [Except.bind, atTarget, node?_put_of_ne hends]

/-- So it holds what it held. -/
theorem held?_write {above : List String} {name otherName : String} {content : ByteArray}
    (hpath : path.names = above ++ [name]) (hother : other.names = above ++ [otherName])
    (habsolute : other.isAbsolute = path.isAbsolute) (hne : otherName ≠ name)
    (hwrite : files.write other content = .ok s) : s.held? path = files.held? path := by
  unfold held?
  rw [(find_write hpath hother habsolute hne hwrite).2]

/-! ## Making directories above a path -/

/-- All files and directories stand in directories. -/
structure IsTree (files : Files) : Prop where
  current : files.node? files.current = some .directory
  above : ∀ entry ∈ files.nodes, files.node? entry.1.dropLast = some .directory

namespace IsTree

theorem node?_dropLast (h : files.IsTree) {node : FileNode} (hnode : files.node? place = some node) :
    files.node? place.dropLast = some .directory := by
  unfold node? at hnode
  split at hnode
  · rename_i hempty
    rw [List.isEmpty_iff.1 hempty]
    rfl
  · obtain ⟨front, back, hnodes, -⟩ := List.lookup_eq_some_iff.1 hnode
    exact h.above (place, node) (by simp [hnodes])

/-- Whatever stands behind a place makes the place a directory. -/
theorem node?_of_append (h : files.IsTree) {node : FileNode} {more : Location} (hne : more ≠ [])
    (hnode : files.node? (place ++ more) = some node) : files.node? place = some .directory := by
  induction more generalizing place node with
  | nil => exact absurd rfl hne
  | cons name more ih =>
    rw [List.append_cons] at hnode
    have hnext : ∃ node, files.node? (place ++ [name]) = some node := by
      cases more with
      | nil => exact ⟨node, by rwa [List.append_nil] at hnode⟩
      | cons next more => exact ⟨.directory, ih (List.cons_ne_nil next more) hnode⟩
    obtain ⟨node, hnext⟩ := hnext
    have habove := h.node?_dropLast hnext
    rwa [List.dropLast_concat] at habove

/-- From a directory on, directories alone are entered. -/
theorem node?_of_enter (h : files.IsTree) (hhere : files.node? here = some .directory)
    (henter : files.enter here names = .ok place) : files.node? place = some .directory := by
  induction names generalizing here with
  | nil =>
    cases henter
    exact hhere
  | cons name names ih =>
    rw [enter_cons] at henter
    obtain ⟨next, hnext, henter⟩ := Except.bind_eq_ok.1 henter
    refine ih ?_ henter
    rcases step_eq_ok.1 hnext with ⟨-, rfl⟩ | ⟨-, rfl⟩ | ⟨-, rfl, hnode⟩
    · exact hhere
    · exact h.node?_dropLast hhere
    · exact hnode

theorem node?_base (h : files.IsTree) (path : Path) :
    files.node? (files.base path) = some .directory := by
  unfold base
  split
  · rfl
  · exact h.current

end IsTree

theorem keepsDirectories_of_makeDirectory (hmake : files.makeDirectory path = .ok s) :
    files.KeepsDirectories s := by
  obtain ⟨place, slash, -, hnone, rfl⟩ := makeDirectory_ok hmake
  exact .put (by simp [hnone]) .directory

/-- A directory that was made stands in a directory. -/
theorem IsTree.makeDirectory (h : files.IsTree) (hmake : files.makeDirectory path = .ok s) :
    s.IsTree := by
  obtain ⟨place, slash, htarget, hnone, rfl⟩ := makeDirectory_ok hmake
  have hkeeps : files.KeepsDirectories (files.put place .directory) :=
    .put (by simp [hnone]) .directory
  have habove : files.node? place.dropLast = some .directory := by
    obtain ⟨-, above, name, here, -, -, henter, rfl⟩ := exists_enter_of_target htarget
    rw [List.dropLast_concat]
    exact h.node?_of_enter (h.node?_base path) henter
  refine ⟨hkeeps.directory _ h.current, fun entry hentry => hkeeps.directory _ ?_⟩
  rcases List.mem_cons.1 hentry with rfl | hentry
  · exact habove
  · exact h.above entry (List.mem_filter.1 hentry).1

/-- The names that lead up are behind directories that are there. -/
def LeadsDown (files : Files) (path : Path) : Prop :=
  ∃ above below here, path.names.dropLast = above ++ below ∧
    files.enter (files.base path) above = .ok here ∧ ".." ∉ below

theorem KeepsDirectories.leadsDown (h : files.KeepsDirectories s) (hdown : files.LeadsDown path) :
    s.LeadsDown path := by
  obtain ⟨above, below, here, hnames, henter, hbelow⟩ := hdown
  exact ⟨above, below, here, hnames, h.base_eq path ▸ h.enter henter, hbelow⟩

theorem enter_append (files : Files) (here : Location) (front names : List String) :
    files.enter here (front ++ names) =
      (files.enter here front).bind fun next => files.enter next names := by
  induction front generalizing here with
  | nil => rfl
  | cons name front ih =>
    rw [List.cons_append, enter_cons, enter_cons]
    cases files.step here name with
    | error fault => rfl
    | ok next => exact ih next

/-- A way that does not lead up leads down by all its names, dots apart. -/
theorem enter_down (hup : ".." ∉ names) (henter : files.enter here names = .ok place) :
    place = here ++ names.filter (· ≠ ".") := by
  induction names generalizing here with
  | nil =>
    cases henter
    simp
  | cons name names ih =>
    rw [List.mem_cons, not_or] at hup
    rw [enter_cons] at henter
    obtain ⟨next, hnext, henter⟩ := Except.bind_eq_ok.1 henter
    have hplace := ih hup.2 henter
    rcases step_eq_ok.1 hnext with ⟨hname, rfl⟩ | ⟨hname, -⟩ | ⟨hname, rfl, -⟩
    · simp [hplace, hname]
    · exact absurd hname.symm hup.1
    · simp [hplace, hname.1]

/-- What stands at the end of a way can be walked to. -/
theorem IsTree.enter_of_node? (h : files.IsTree) (hup : ".." ∉ names)
    (henter : s.enter here names = .ok place) (hplace : files.node? place = some .directory) :
    files.enter here names = .ok place := by
  induction names generalizing here with
  | nil => exact henter
  | cons name names ih =>
    rw [List.mem_cons, not_or] at hup
    rw [enter_cons] at henter ⊢
    obtain ⟨next, hnext, henter⟩ := Except.bind_eq_ok.1 henter
    refine Except.bind_eq_ok.2 ⟨next, ?_, ih hup.2 henter⟩
    rcases step_eq_ok.1 hnext with hdot | ⟨hname, -⟩ | ⟨hname, rfl, -⟩
    · exact step_eq_ok.2 (.inl hdot)
    · exact absurd hname.symm hup.1
    · refine step_eq_ok.2 (.inr (.inr ⟨hname, rfl, ?_⟩))
      rw [enter_down hup.2 henter] at hplace
      cases hmore : names.filter (· ≠ ".") with
      | nil => rwa [hmore, List.append_nil] at hplace
      | cons name more =>
        rw [hmore] at hplace
        exact h.node?_of_append (List.cons_ne_nil name more) hplace

/-- A directory that was missing is not on a way that was there. -/
theorem not_prefix_of_missing {front above : List String} {name : String} (hname : IsProper name)
    (henter : files.enter place front = .ok here) (hnone : files.node? (here ++ [name]) = none)
    (habove : files.enter place above = .ok there) : ¬ front ++ [name] <+: above := by
  rintro ⟨more, rfl⟩
  rw [List.append_assoc, enter_append, henter] at habove
  change files.enter here (name :: more) = .ok there at habove
  rw [enter_cons] at habove
  obtain ⟨next, hnext, -⟩ := Except.bind_eq_ok.1 habove
  rcases step_eq_ok.1 hnext with ⟨hdot, -⟩ | ⟨hdots, -⟩ | ⟨-, -, hnode⟩
  · exact hname.1 hdot
  · exact hname.2.1 hdots
  · rw [hnone] at hnode
    cases hnode

/-- Of two ways with the same names the longer one goes on where the other ends. -/
theorem exists_behind {front above below : List String} {name : String}
    (h : front ++ [name] <+: above ++ below) (hnot : ¬ front ++ [name] <+: above) :
    ∃ before behind, front = above ++ before ∧ below = before ++ name :: behind := by
  obtain ⟨more, hmore⟩ := (List.prefix_or_prefix_of_prefix h
    (List.prefix_append above below)).resolve_left hnot
  rcases List.eq_nil_or_concat more with rfl | ⟨before, last, rfl⟩
  · rw [List.append_nil] at hmore
    exact absurd (hmore ▸ List.prefix_refl _) hnot
  · rw [List.concat_eq_append, ← List.append_assoc] at hmore
    obtain ⟨rfl, rfl⟩ := List.append_singleton_inj.1 hmore
    rw [List.append_assoc] at h
    obtain ⟨behind, rfl⟩ := (List.prefix_append_right_inj above).1 h
    exact ⟨before, behind, rfl, by simp⟩

/-- A new directory that does not stand where a way down ends changes nothing there. -/
theorem atEnd?_put_directory {above below : List String} (htree : files.IsTree)
    (h : path.NamesFile) (hway : path.names.dropLast = above ++ below)
    (habove : files.enter (files.base path) above = .ok there) (hup : ".." ∉ below)
    (hnone : files.node? place = none)
    (hends : ∀ last, there ++ below.filter (· ≠ ".") ++ [last] ≠ place) :
    (files.put place .directory).atEnd? path = files.atEnd? path := by
  have hkeeps : files.KeepsDirectories (files.put place .directory) := .put (by simp [hnone]) _
  obtain ⟨-, last, hlast, -⟩ := h
  unfold atEnd?
  rw [base_put, hway, Option.mem_def.1 hlast, enter_append, enter_append, habove,
    hkeeps.enter habove]
  change ((files.put place .directory).enter there below).toOption.bind _ =
    (files.enter there below).toOption.bind _
  cases henter : files.enter there below with
  | ok here =>
    rw [hkeeps.enter henter]
    obtain rfl := enter_down hup henter
    exact node?_put_of_ne (hends _)
  | error fault =>
    cases hopened : (files.put place .directory).enter there below with
    | error => rfl
    | ok here =>
      -- The way was opened. If anything stood at its end, it would have been open before.
      obtain rfl := enter_down hup hopened
      refine (node?_put_of_ne (hends _)).trans ?_
      cases hnode : files.node? (there ++ below.filter (· ≠ ".") ++ [last]) with
      | none => rfl
      | some node =>
        have hdirectory := htree.node?_of_append (List.cons_ne_nil last []) hnode
        rw [htree.enter_of_node? hup hopened hdirectory] at henter
        cases henter

/-- A directory above the path. -/
theorem held?_makeDirectory (htree : files.IsTree) (h : path.NamesFile)
    (hdown : files.LeadsDown path) (htext : other.text.toList <+: path.text.toList)
    (hnames : other.names <+: path.names.dropLast) (hmake : files.makeDirectory other = .ok s) :
    s.held? path = files.held? path := by
  obtain ⟨place, slash, htarget, hnone, rfl⟩ := makeDirectory_ok hmake
  obtain ⟨hne, front, name, here, hother, hname, henter, rfl⟩ := exists_enter_of_target htarget
  obtain ⟨above, below, there, hway, habove, hup⟩ := hdown
  have hbase : files.base other = files.base path := by
    unfold base
    rw [Path.isAbsolute_of_isPrefix hne htext]
  rw [hbase] at henter
  rw [hother, hway] at hnames
  obtain ⟨before, behind, rfl, rfl⟩ :=
    exists_behind hnames (not_prefix_of_missing hname henter hnone habove)
  refine held?_congr h (atEnd?_put_directory htree h hway habove hup hnone fun last => ?_)
  -- The way goes on behind the new directory.
  rw [enter_append, habove] at henter
  rw [enter_down (fun hmem => hup (List.mem_append_left _ hmem)) henter]
  intro heq
  have hlength := congrArg List.length heq
  simp [hname.1] at hlength

end RecordQuery.Files
