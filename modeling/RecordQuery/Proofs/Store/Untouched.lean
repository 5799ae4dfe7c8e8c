/-
RecordQuery.Proofs.Store.Untouched — what a save leaves as it was.

A save changes files at two places: where the path of the store leads, and where
the path beside it leads that is written first. Nothing else is changed, whether
the save succeeds or fails at any of its steps, except that directories are made
above the path where nothing was. Each change is followed on its own here, and a
save is the changes one after the other: a change takes no directory away, so a
place to which a path does not lead at the end was not led to before.

The file beside the path is no more than a name. A file that somebody else keeps
there is overwritten, and then moved away. There are no links in these files (see
`Files`): where that name is a link, it is the file behind it that is overwritten.

Main statements:
* `Files.ChangesOnly.trans` — one piece of work after another;
* `FileChange.changesOnly_makeDirectories`, `FileChange.changesOnly_write`,
  `Files.changesOnly_rename` — what each change leaves alone;
* `Store.save_changesOnly` — what a save leaves alone, and what is left beside the path.
-/
import RecordQuery.Proofs.Store.Cell
import RecordQuery.Proofs.Store.Interrupted

namespace RecordQuery

namespace Files

variable {files mid s t : Files} {path source parent : Path} {place : Location}
  {content : ByteArray} {own made : Location → Prop}

/-! ## What is left alone -/

/-- The path leads to a place in a directory. -/
def LeadsTo (files : Files) (path : Path) (place : Location) : Prop :=
  ∃ slash, files.target path = .ok (.entry place slash)

/-- A path leads to one place. -/
theorem LeadsTo.eq_of_target {other : Location} {slash : Bool} (hleads : files.LeadsTo path other)
    (h : files.target path = .ok (.entry place slash)) : other = place := by
  obtain ⟨slash', htarget⟩ := hleads
  cases h.symm.trans htarget
  rfl

/-- A place at which one of the directories is made that a path needs. -/
def IsMadeFor (files : Files) (path : Path) (place : Location) : Prop :=
  ∃ above ∈ path.ancestors, files.LeadsTo above place

/-- What is at a place is what was there before, unless the place is one of the own ones, or one where
nothing was and a directory was made. -/
structure ChangesOnly (files s : Files) (own made : Location → Prop) : Prop where
  keeps : files.KeepsDirectories s
  node? : ∀ place, ¬ own place → s.node? place = files.node? place ∨
    made place ∧ files.node? place = none ∧ s.node? place = some .directory

theorem KeepsDirectories.leadsTo (h : files.KeepsDirectories s) (hleads : files.LeadsTo path place) :
    s.LeadsTo path place := by
  obtain ⟨slash, htarget⟩ := hleads
  exact ⟨slash, h.target htarget⟩

theorem KeepsDirectories.isMadeFor (h : files.KeepsDirectories s)
    (hmade : files.IsMadeFor path place) : s.IsMadeFor path place := by
  obtain ⟨above, hmem, hleads⟩ := hmade
  exact ⟨above, hmem, h.leadsTo hleads⟩

namespace ChangesOnly

theorem refl (files : Files) (own made : Location → Prop) : files.ChangesOnly files own made :=
  ⟨.refl files, fun _ _ => .inl rfl⟩

/-- More places may be own ones, and more directories may be made. -/
theorem mono {own' made' : Location → Prop} (h : files.ChangesOnly s own made)
    (hown : ∀ place, own place → own' place) (hmade : ∀ place, made place → made' place) :
    files.ChangesOnly s own' made' where
  keeps := h.keeps
  node? place hplace :=
    (h.node? place fun hmem => hplace (hown place hmem)).imp_right (And.imp_left (hmade place))

/-- One piece of work after another. -/
theorem trans (h : files.ChangesOnly mid own made) (h' : mid.ChangesOnly s own made) :
    files.ChangesOnly s own made where
  keeps := h.keeps.trans h'.keeps
  node? place hplace := by
    rcases h.node? place hplace with hsame | ⟨hmade, hnone, hdirectory⟩
    · rw [← hsame]
      exact h'.node? place hplace
    · exact .inr ⟨hmade, hnone, h'.keeps.directory place hdirectory⟩

end ChangesOnly

/-! ## Changes -/

theorem changesOnly_makeDirectory (h : files.makeDirectory path = .ok s) :
    files.ChangesOnly s (fun _ => False) (s.LeadsTo path) := by
  have hkeeps := keepsDirectories_of_makeDirectory h
  obtain ⟨new, slash, htarget, hnone, rfl⟩ := makeDirectory_ok h
  refine ⟨hkeeps, fun place _ => ?_⟩
  by_cases hplace : place = new
  · subst hplace
    exact .inr ⟨⟨slash, hkeeps.target htarget⟩, hnone, node?_put_self (ne_nil_of_target htarget)⟩
  · exact .inl (node?_put_of_ne hplace)

theorem changesOnly_write (made : Location → Prop) (h : files.write path content = .ok s) :
    files.ChangesOnly s (s.LeadsTo path) made := by
  obtain ⟨written, htarget, hfile, rfl⟩ := write_ok h
  have hkeeps : files.KeepsDirectories (files.put written (.file content)) := .put hfile _
  refine ⟨hkeeps, fun place hplace => .inl (node?_put_of_ne ?_)⟩
  rintro rfl
  exact hplace ⟨false, hkeeps.target htarget⟩

/-- A file is taken away at one place and put at another. -/
theorem changesOnly_rename (made : Location → Prop) (h : files.rename source path = .ok s) :
    files.ChangesOnly s (fun place => s.LeadsTo path place ∨ s.LeadsTo source place) made ∧
      ∀ place, s.LeadsTo source place → ¬ s.LeadsTo path place → s.node? place = none := by
  obtain ⟨old, new, content, hold, hnew, hmoved, hfile, rfl⟩ := rename_ok h
  have herase : files.KeepsDirectories (files.erase old) := .erase (by simp [hmoved])
  have hput : (files.erase old).KeepsDirectories ((files.erase old).put new (.file content)) := by
    refine .put ?_ _
    by_cases heq : new = old
    · rw [heq, node?_erase_self (ne_nil_of_target hold)]
      simp
    · rwa [node?_erase_of_ne heq]
  have hkeeps := herase.trans hput
  have hnew' := hkeeps.target hnew
  have hold' := hkeeps.target hold
  refine ⟨⟨hkeeps, fun place hplace => .inl ?_⟩, fun place hsource hpath => ?_⟩
  · rw [not_or] at hplace
    have hne : place ≠ new := by
      rintro rfl
      exact hplace.1 ⟨false, hnew'⟩
    have hne' : place ≠ old := by
      rintro rfl
      exact hplace.2 ⟨false, hold'⟩
    rw [node?_put_of_ne hne, node?_erase_of_ne hne']
  · obtain rfl : place = old := hsource.eq_of_target hold'
    have hne : place ≠ new := by
      rintro rfl
      exact hpath ⟨false, hnew'⟩
    rw [node?_put_of_ne hne, node?_erase_self (ne_nil_of_target hold)]

end Files

namespace FileChange

open Files (ChangesOnly)

variable {files s : Files} {path : Path} {content : ByteArray}

/-- Wherever it is stopped that directories are made, no other directories were made. -/
theorem changesOnly_makeDirectories (own : Location → Prop)
    (h : (FileChange.makeDirectories path).Leaves files s) :
    files.ChangesOnly s own (s.IsMadeFor path) := by
  refine h.makeDirectories_induction (.refl files own _) ?_
  intro mid s above _ hmem hmake hbefore
  have hlast := Files.changesOnly_makeDirectory hmake
  have hbefore : files.ChangesOnly mid own (s.IsMadeFor path) :=
    hbefore.mono (fun _ h => h) fun _ => hlast.keeps.isMadeFor
  exact hbefore.trans (hlast.mono (fun _ => False.elim) fun _ hleads => ⟨above, hmem, hleads⟩)

/-- However much of a file was written, no other file was. -/
theorem changesOnly_write (made : Location → Prop)
    (h : (FileChange.write path content).Leaves files s) :
    files.ChangesOnly s (s.LeadsTo path) made := by
  cases h with
  | untouched => exact .refl files _ _
  | torn length hwrite => exact Files.changesOnly_write made hwrite

end FileChange

namespace Store

open Files (ChangesOnly)

variable {store : Store} {dataset : Dataset} {files s : Files} {bytes : ByteArray}

/-! ## Saves -/

/-- The places that a save may change: those to which its two paths lead. -/
def IsOwn (store : Store) (files : Files) (place : Location) : Prop :=
  files.LeadsTo store.path place ∨ files.LeadsTo store.temporaryPath place

/-- The places at which a save may make directories: those above its path. -/
def IsAbove (store : Store) (files : Files) (place : Location) : Prop :=
  ∃ parent ∈ store.path.parent?, files.IsMadeFor parent place

/-- A file that is written beside the path and then renamed. -/
theorem changesOnly_write_rename {result : Except (FileChange × FileFault) Unit}
    (made : Location → Prop)
    (h : (FileTask.changeAll [.write store.temporaryPath bytes,
      .rename store.temporaryPath store.path]).Ends files result s) :
    files.ChangesOnly s (store.IsOwn s) made ∧
      (result = .ok () → ∀ place, s.LeadsTo store.temporaryPath place →
        ¬ s.LeadsTo store.path place → s.node? place = none) := by
  rcases h.changeAll_cons with ⟨fault, rfl, hfails⟩ | ⟨written, hwrite, h⟩
  · have hwritten := FileChange.changesOnly_write made hfails.leaves_write
    exact ⟨hwritten.mono (fun _ => .inr) fun _ h => h, nofun⟩
  have hwritten := FileChange.changesOnly_write made (FileChange.leaves_of_apply hwrite)
  rcases h.changeAll_cons with ⟨fault, rfl, hfails⟩ | ⟨renamed, hrename, h⟩
  · rw [hfails.eq_of_rename]
    exact ⟨hwritten.mono (fun _ => .inr) fun _ h => h, nofun⟩
  · obtain ⟨-, rfl⟩ := h.eq_of_done
    obtain ⟨hrenamed, hgone⟩ := Files.changesOnly_rename made
      (FileChange.apply_rename_eq_ok.1 hrename)
    have hfirst : files.ChangesOnly written (store.IsOwn s) made :=
      hwritten.mono (fun _ hleads => .inr (hrenamed.keeps.leadsTo hleads)) fun _ h => h
    exact ⟨hfirst.trans hrenamed, fun _ => hgone⟩

/-- The changes of a save. -/
theorem changesOnly_saveChanges {result : Except (FileChange × FileFault) Unit}
    (h : (FileTask.changeAll (store.saveChanges dataset)).Ends files result s) :
    files.ChangesOnly s (store.IsOwn s) (store.IsAbove s) ∧
      (result = .ok () → ∀ place, s.LeadsTo store.temporaryPath place →
        ¬ s.LeadsTo store.path place → s.node? place = none) := by
  unfold saveChanges at h
  cases hparent : store.path.parent? with
  | none =>
    rw [hparent] at h
    exact changesOnly_write_rename _ h
  | some parent =>
    have habove {files : Files} (place : Location) (hmade : files.IsMadeFor parent place) :
        store.IsAbove files place := ⟨parent, hparent, hmade⟩
    rw [hparent] at h
    rcases h.changeAll_cons with ⟨fault, rfl, hfails⟩ | ⟨made, hmake, h⟩
    · have hmade := FileChange.changesOnly_makeDirectories (store.IsOwn s)
        hfails.leaves_makeDirectories
      exact ⟨hmade.mono (fun _ h => h) habove, nofun⟩
    · have hmade := FileChange.changesOnly_makeDirectories (store.IsOwn s)
        (FileChange.leaves_of_apply hmake)
      obtain ⟨hsaved, hgone⟩ := changesOnly_write_rename (store.IsAbove s) h
      have hfirst := hmade.mono (fun _ h => h) fun place hplace =>
        habove place (hsaved.keeps.isMadeFor hplace)
      exact ⟨hfirst.trans hsaved, hgone⟩

/-- Whether it succeeds or fails, and in both ways of calling, a save changes nothing but what is at the
place of its path and at the place beside it, and makes no directories but those above its path. After
a save that succeeded nothing is left at the place beside it. This is about file systems without links,
as `Files` is: where the path beside it is a link, what is written there changes the file it leads to. -/
theorem save_changesOnly {call : StoreCall (Except StoreError Unit)}
    {result : Except StoreError Unit} (hcall : call = .save dataset ∨ call = .saveAsync dataset)
    (h : (call.task store).Ends files result s) :
    files.ChangesOnly s (store.IsOwn s) (store.IsAbove s) ∧
      (result = .ok () → ∀ place, s.LeadsTo store.temporaryPath place →
        ¬ s.LeadsTo store.path place → s.node? place = none) := by
  rw [task_of_save hcall, save_eq] at h
  obtain ⟨first, mid, hchanges, hend⟩ := h.of_bind
  obtain ⟨hchangesOnly, hgone⟩ := changesOnly_saveChanges hchanges
  cases first with
  | ok =>
    obtain ⟨-, rfl⟩ := hend.eq_of_done
    exact ⟨hchangesOnly, fun _ => hgone rfl⟩
  | error failed =>
    obtain ⟨rfl, rfl⟩ := hend.eq_of_done
    exact ⟨hchangesOnly, nofun⟩

/-- The directories for the data file are made where a file with notes is, and this stays. -/
theorem save_changesOnly_deepStore :
    (StoreCall.saveAsync Dataset.empty = .save .empty ∨
        StoreCall.saveAsync Dataset.empty = .saveAsync .empty) ∧
      ∃ s, ((StoreCall.saveAsync .empty).task deepStore).Ends (holding "notes.txt") (.ok ()) s ∧
        (holding "notes.txt").ChangesOnly s (deepStore.IsOwn s) (deepStore.IsAbove s) ∧
        s.node? ["data", "notes.txt"] = (holding "notes.txt").node? ["data", "notes.txt"] := by
  have hends := FileTask.ends_run ((StoreCall.saveAsync .empty).task deepStore) (holding "notes.txt")
  have hsaved : (((StoreCall.saveAsync .empty).task deepStore).run (holding "notes.txt")).1 =
      .ok () := rfl
  rw [hsaved] at hends
  exact ⟨.inr rfl, _, hends, (save_changesOnly (.inr rfl) hends).1, rfl⟩

/-! ## Files beside the path -/

/-- A file that appears or changes elsewhere is a change elsewhere. -/
theorem not_changesOnly {own made : Location → Prop} (place : Location) (hother : ¬ own place)
    (hchanged : s.node? place ≠ files.node? place) (hfile : s.node? place ≠ some .directory) :
    ¬ files.ChangesOnly s own made := by
  intro h
  rcases h.node? place hother with hsame | ⟨-, -, hdirectory⟩
  · exact hchanged hsame
  · exact hfile hdirectory

/-- A directory in the place of a data file. -/
def occupied : Files :=
  ⟨["data"], [(["data"], .directory), (["data", "dataset.json"], .directory)]⟩

/-- A save changes files at other places than that of its path: a file beside it is lost if the save
succeeds, and a new one is left there if it fails. -/
theorem save_changes_others :
    (∃ s, (besideStore.save .empty).run (holding "dataset.tmp") = (.ok (), s) ∧
      ¬ (holding "dataset.tmp").ChangesOnly s (s.LeadsTo besideStore.path)
        (besideStore.IsAbove s)) ∧
    ∃ s, (besideStore.save .empty).run occupied =
        (.error (.write ⟨"dataset.json"⟩ .isDirectory), s) ∧
      ¬ occupied.ChangesOnly s (s.LeadsTo besideStore.path) (besideStore.IsAbove s) := by
  have hne : ["data", "dataset.tmp"] ≠ ["data", "dataset.json"] := by decide
  constructor
  · refine ⟨_, rfl, not_changesOnly ["data", "dataset.tmp"] ?_ nofun nofun⟩
    exact fun hleads => hne (hleads.eq_of_target rfl)
  · refine ⟨_, rfl, not_changesOnly ["data", "dataset.tmp"] ?_ nofun nofun⟩
    exact fun hleads => hne (hleads.eq_of_target rfl)

end Store

end RecordQuery
