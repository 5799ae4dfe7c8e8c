/-
RecordQuery.Proofs.Store.Cell — a store as a cell for one dataset.

Who saves, loads and deletes a dataset need not know of directories, of the file
that is written beside the data file, or of renames: the store should be a cell
that holds a dataset or nothing. A history of calls, with the answer of each, is
compared with such a cell here. Every save may fail before the rename, and what
it did until then stays.

The comparison is by an invariant. If the cell holds a dataset, the path names a
file with the text of it; if it holds nothing, the path stays absent. Each call
keeps this, whether it succeeds or fails, and its answer is read off it.

All of this is about file systems without symbolic and hard links, as `Files` is.
With the path beside the data file a link, saves reach other files through it.

Main statements:
* `Store.Holds.save_failed`, `Store.find_of_save_ends`, `Store.Holds.delete` — the changes;
* `Store.Holds.load`, `Store.Holds.loadOrEmpty`, `Store.Holds.isPresent` — the answers;
* `Store.Holds.step`, `Store.Holds.agrees` — one call, and a history of calls;
* `Store.isCell_iff_staysAbsent` — a store is a cell if and only if its path stays absent at first.
-/
import RecordQuery.Proofs.Files.Absent
import RecordQuery.Proofs.Files.Failure
import RecordQuery.Proofs.Store.RoundTrip

namespace RecordQuery

/-! ## Calls and their answers -/

/-- A call that was answered. -/
structure StoreEvent where
  {Answer : Type}
  call : StoreCall Answer
  answer : Answer

namespace StoreEvent

/-- The dataset that was saved, if one was. -/
def saved? : StoreEvent → Option Dataset
  | ⟨.save dataset, .ok ()⟩ | ⟨.saveAsync dataset, .ok ()⟩ => some dataset
  | _ => none

/-- What a cell with this content holds afterwards. -/
def next (content : Option Dataset) : StoreEvent → Option Dataset
  | ⟨.save dataset, .ok ()⟩ | ⟨.saveAsync dataset, .ok ()⟩ => some dataset
  | ⟨.delete, .ok ()⟩ => none
  | _ => content

/-- The answer is that of a cell with this content. Saves, and deletions where there is something to
delete, may succeed or fail. -/
def Agrees (path : Path) (content : Option Dataset) : StoreEvent → Prop
  | ⟨.load, result⟩ | ⟨.loadAsync, result⟩ =>
    result = content.elim (.error (.read path .notFound)) .ok
  | ⟨.loadOrEmpty, result⟩ | ⟨.loadOrEmptyAsync, result⟩ => result = .ok (content.getD .empty)
  | ⟨.isPresent, found⟩ => found = content.isSome
  | ⟨.delete, result⟩ => content = none → result = .ok ()
  | ⟨.save _, _⟩ | ⟨.saveAsync _, _⟩ => True

end StoreEvent

/-- The dataset of the last save that succeeded, unless a deletion succeeded since. -/
def lastSaved? (history : List StoreEvent) : Option Dataset :=
  history.foldl StoreEvent.next none

/-- The dataset is read back from its own text: user fields have plain keys, lists and objects nest
no deeper than the reader goes, and every double is read from its own text. -/
def Dataset.RoundTrips (dataset : Dataset) : Prop :=
  dataset.IsReadable Json.maxLevels ∧ ∀ x ∈ dataset.toJson.doubles,
    Json.read (String.ofList x.jsonChars) = .ok (.number (.double x))

namespace Store

/-- Calls were answered one after the other, on these files at first, with those at the end. -/
inductive Happens (store : Store) : List StoreEvent → Files → Files → Prop
  | nil (files : Files) : Happens store [] files files
  | cons {event : StoreEvent} {history : List StoreEvent} {files mid s : Files}
      (ends : (event.call.task store).Ends files event.answer mid)
      (rest : Happens store history mid s) : Happens store (event :: history) files s

/-- Whatever is asked of the store from these files on, and whatever saves fail: if the datasets that
are saved can be read back, all answers are those of a cell that holds nothing at first. The files have
no links. Where the path beside the data file is a link to it, a save leaves a link that leads to itself
and no cell. -/
def IsCell (store : Store) (files : Files) : Prop :=
  ∀ history s, store.Happens history files s →
    (∀ event ∈ history, ∀ dataset ∈ event.saved?, dataset.RoundTrips) →
    ∀ before event after, history = before ++ event :: after →
      event.Agrees store.path (lastSaved? before)

/-- The files are those of a cell with this content. -/
def Holds (store : Store) (files : Files) : Option Dataset → Prop
  | none => files.StaysAbsent store.path
  | some dataset =>
    dataset.RoundTrips ∧ files.find store.path = .ok (.file (encode dataset).toUTF8)

variable {store : Store} {dataset : Dataset} {files mid s : Files} {parent : Path}
  {content : Option Dataset} {bytes : ByteArray}

/-! ## Saves -/

theorem run_of_save_ends (h : (store.save dataset).Ends files (.ok ()) s) :
    (store.save dataset).run files = (.ok (), s) := by
  rw [save_eq] at h ⊢
  obtain ⟨first, mid, hchanges, hend⟩ := h.of_bind
  cases first with
  | error failed => cases hend
  | ok =>
    obtain ⟨-, rfl⟩ := hend.eq_of_done
    rw [FileTask.run_bind, hchanges.run_changeAll]
    rfl

/-- After a save that succeeded the path names a file with the text of the dataset. -/
theorem find_of_save_ends (h : (store.save dataset).Ends files (.ok ()) s) :
    s.find store.path = .ok (.file (encode dataset).toUTF8) :=
  find_of_save (run_of_save_ends h)

/-! ## Deletions -/

/-- A deletion removes the file, or finds that there is none, or fails for another reason. -/
theorem delete_ends {result : Except StoreError Unit} (h : store.delete.Ends files result s) :
    (result = .ok () ∧ files.remove store.path = .ok s) ∨
      (result = .ok () ∧ s = files ∧ files.remove store.path = .error .notFound) ∨
      ∃ fault, fault ≠ .notFound ∧ result = .error (.delete store.path fault) ∧ s = files ∧
        (files.remove store.path = .error fault ∨ ∃ t, files.remove store.path = .ok t) := by
  unfold delete at h
  cases h with
  | changed apply rest =>
    obtain ⟨rfl, rfl⟩ := rest.eq_of_done
    exact .inl ⟨rfl, FileChange.apply_remove_eq_ok.1 apply⟩
  | failed fails rest =>
    obtain ⟨rfl, hremove⟩ := fails.eq_of_remove
    dsimp only at rest
    split at rest
    · contradiction
    · rename_i heq
      cases heq
      obtain ⟨rfl, rfl⟩ := rest.eq_of_done
      exact .inr (.inl ⟨rfl, rfl, hremove.resolve_right fun hother => hother.1 rfl⟩)
    · rename_i hother heq
      cases heq
      obtain ⟨rfl, rfl⟩ := rest.eq_of_done
      exact .inr (.inr ⟨_, fun hmissing => hother (by rw [hmissing]), rfl, rfl,
        hremove.imp_right And.right⟩)

/-! ## The invariant -/

namespace Holds

/-- Making directories above the path changes nothing for the cell. -/
theorem makeDirectories (h : store.Holds files content) (hparent : store.path.parent? = some parent)
    (hleaves : (FileChange.makeDirectories parent).Leaves files s) : store.Holds s content := by
  cases content with
  | none => exact Files.StaysAbsent.of_leaves h hparent hleaves
  | some dataset =>
    rwa [Files.eq_of_leaves_makeDirectories (Files.hasDirectory_of_find h.2) hparent hleaves]

/-- Nor does a file that is written beside the path, or a part of it. -/
theorem write (h : store.Holds files content) (hpath : store.path.NamesFile)
    (hbeside : store.temporaryPath ≠ store.path)
    (hleaves : (FileChange.write store.temporaryPath bytes).Leaves files s) :
    store.Holds s content := by
  cases hleaves with
  | untouched => exact h
  | torn length hwrite =>
    obtain ⟨above, name, other, hnames, hother, habsolute, hsame⟩ :=
      hpath.exists_withExtension (show '/' ∉ "tmp".toList by decide)
    obtain ⟨hdirectory, hfind⟩ := Files.find_write hnames hother habsolute
      (fun heq => hbeside (hsame heq)) hwrite
    cases content with
    | none => exact .of_hasDirectory hdirectory (hfind.trans h.find)
    | some dataset => exact ⟨h.1, hfind.trans h.2⟩

/-- Nor does it if the file beside is to be renamed then, and one of the two fails. -/
theorem write_rename_failed (h : store.Holds files content) (hpath : store.path.NamesFile)
    (hbeside : store.temporaryPath ≠ store.path) {failed : FileChange × FileFault}
    (hends : (FileTask.changeAll [.write store.temporaryPath bytes,
      .rename store.temporaryPath store.path]).Ends files (.error failed) s) :
    store.Holds s content := by
  rcases hends.changeAll_cons with ⟨fault, -, hfails⟩ | ⟨written, hwrite, hends⟩
  · exact h.write hpath hbeside hfails.leaves_write
  · have hwritten := h.write hpath hbeside (FileChange.leaves_of_apply hwrite)
    rcases hends.changeAll_cons with ⟨fault, -, hfails⟩ | ⟨renamed, -, hends⟩
    · rwa [hfails.eq_of_rename]
    · cases hends

/-- A save that failed changed nothing for the cell, wherever it failed. -/
theorem save_failed (h : store.Holds files content) (hpath : store.path.NamesFile)
    (hbeside : store.temporaryPath ≠ store.path) {error : StoreError}
    (hends : (store.save dataset).Ends files (.error error) s) : store.Holds s content := by
  rw [save_eq] at hends
  obtain ⟨first, mid, hchanges, hend⟩ := hends.of_bind
  cases first with
  | ok => cases hend
  | error failed =>
    obtain ⟨-, rfl⟩ := hend.eq_of_done
    unfold saveChanges at hchanges
    cases hparent : store.path.parent? with
    | none =>
      rw [hparent] at hchanges
      exact h.write_rename_failed hpath hbeside hchanges
    | some parent =>
      rw [hparent] at hchanges
      rcases hchanges.changeAll_cons with ⟨fault, -, hfails⟩ | ⟨made, hmake, hends⟩
      · exact h.makeDirectories hparent hfails.leaves_makeDirectories
      · have hmade := h.makeDirectories hparent (FileChange.leaves_of_apply hmake)
        exact hmade.write_rename_failed hpath hbeside hends

/-- A save leaves its dataset in the cell if it succeeds, and what was there before if it fails. -/
theorem save (h : store.Holds files content) (hpath : store.path.NamesFile)
    (hbeside : store.temporaryPath ≠ store.path) {result : Except StoreError Unit}
    (hends : (store.save dataset).Ends files result s)
    (hsaved : result = .ok () → dataset.RoundTrips) :
    store.Holds s (StoreEvent.next content ⟨.save dataset, result⟩) := by
  cases result with
  | ok => exact ⟨hsaved rfl, find_of_save_ends hends⟩
  | error error => exact h.save_failed hpath hbeside hends

/-- A deletion empties the cell if it succeeds, and it does if there is nothing to delete. -/
theorem delete (h : store.Holds files content) {result : Except StoreError Unit}
    (hends : store.delete.Ends files result s) :
    StoreEvent.Agrees store.path content ⟨.delete, result⟩ ∧
      store.Holds s (StoreEvent.next content ⟨.delete, result⟩) := by
  cases content with
  | none =>
    have hmissing := Files.remove_of_find_notFound h.find
    rcases delete_ends hends with ⟨-, hremove⟩ | ⟨rfl, rfl, -⟩ | ⟨fault, hother, -, -, hremove⟩
    · cases hmissing.symm.trans hremove
    · exact ⟨fun _ => rfl, h⟩
    · rcases hremove with hremove | ⟨t, hremove⟩
      · cases hmissing.symm.trans hremove
        exact absurd rfl hother
      · cases hmissing.symm.trans hremove
  | some dataset =>
    obtain ⟨t, hthere, habsent⟩ := Files.remove_of_find_file h.2
    refine ⟨nofun, ?_⟩
    rcases delete_ends hends with ⟨rfl, hremove⟩ | ⟨-, -, hremove⟩ | ⟨fault, -, rfl, rfl, -⟩
    · cases hthere.symm.trans hremove
      exact habsent
    · cases hthere.symm.trans hremove
    · exact h

/-! ## Answers -/

/-- What is loaded is what the cell holds. -/
theorem load (h : store.Holds files content) :
    store.load.run files = (content.elim (.error (.read store.path .notFound)) .ok, files) := by
  cases content with
  | none =>
    rw [load_run, Files.read, h.find]
    rfl
  | some dataset =>
    obtain ⟨⟨hreadable, hdoubles⟩, hfind⟩ := h
    rw [load_of_find hfind, decode_encode_reread hreadable,
      (reread_eq_self_iff_read hreadable.1).2 hdoubles]
    rfl

theorem loadOrEmpty (h : store.Holds files content) :
    store.loadOrEmpty.run files = (.ok (content.getD .empty), files) := by
  show (store.load.bind _).run files = _
  rw [FileTask.run_bind, h.load]
  cases content <;> rfl

theorem isPresent (h : store.Holds files content) :
    store.isPresent.run files = (content.isSome, files) := by
  show (files.contains store.path, files) = _
  rw [Files.contains]
  cases content with
  | none => rw [h.find]; rfl
  | some dataset => rw [h.2]; rfl

end Holds

theorem onlyReads_load (store : Store) : store.load.OnlyReads := by
  refine .bind (.read fun content => .done _) fun text => ?_
  cases text with
  | ok => exact .done _
  | error => exact .done _

theorem onlyReads_loadOrEmpty (store : Store) : store.loadOrEmpty.OnlyReads := by
  refine store.onlyReads_load.bind fun result => ?_
  split
  · exact .done _
  · exact .done _

theorem onlyReads_isPresent (store : Store) : store.isPresent.OnlyReads := .check fun _ => .done _

/-! ## Histories -/

/-- One call: its answer is that of the cell, and the files are again those of the cell. -/
theorem Holds.step (h : store.Holds files content) (hpath : store.path.NamesFile)
    (hbeside : store.temporaryPath ≠ store.path) {event : StoreEvent}
    (hends : (event.call.task store).Ends files event.answer s)
    (hsaved : ∀ dataset ∈ event.saved?, dataset.RoundTrips) :
    event.Agrees store.path content ∧ store.Holds s (event.next content) := by
  obtain ⟨call, answer⟩ := event
  cases call with
  | save dataset =>
    refine ⟨trivial, h.save hpath hbeside hends ?_⟩
    rintro rfl
    exact hsaved dataset rfl
  | saveAsync dataset =>
    have hsave := h.save hpath hbeside (task_of_save (.inr rfl) ▸ hends)
    cases answer with
    | ok => exact ⟨trivial, hsave fun _ => hsaved dataset rfl⟩
    | error => exact ⟨trivial, hsave nofun⟩
  | delete => exact h.delete hends
  | load =>
    obtain ⟨rfl, rfl⟩ := Prod.mk.inj (h.load.symm.trans (store.onlyReads_load.run_eq hends))
    exact ⟨rfl, h⟩
  | loadAsync =>
    rw [task_of_load (.inr rfl)] at hends
    obtain ⟨rfl, rfl⟩ := Prod.mk.inj (h.load.symm.trans (store.onlyReads_load.run_eq hends))
    exact ⟨rfl, h⟩
  | loadOrEmpty =>
    obtain ⟨rfl, rfl⟩ :=
      Prod.mk.inj (h.loadOrEmpty.symm.trans (store.onlyReads_loadOrEmpty.run_eq hends))
    exact ⟨rfl, h⟩
  | loadOrEmptyAsync =>
    change store.loadOrEmptyAsync.Ends _ _ _ at hends
    rw [loadOrEmptyAsync_eq] at hends
    obtain ⟨rfl, rfl⟩ :=
      Prod.mk.inj (h.loadOrEmpty.symm.trans (store.onlyReads_loadOrEmpty.run_eq hends))
    exact ⟨rfl, h⟩
  | isPresent =>
    obtain ⟨rfl, rfl⟩ :=
      Prod.mk.inj (h.isPresent.symm.trans (store.onlyReads_isPresent.run_eq hends))
    exact ⟨rfl, h⟩

/-- All calls: each is answered with what the cell holds after those before it. -/
theorem Holds.agrees (h : store.Holds files content) (hpath : store.path.NamesFile)
    (hbeside : store.temporaryPath ≠ store.path) {history : List StoreEvent}
    (hhappens : store.Happens history files s)
    (hsaved : ∀ event ∈ history, ∀ dataset ∈ event.saved?, dataset.RoundTrips)
    {before after : List StoreEvent} {event : StoreEvent}
    (hhistory : history = before ++ event :: after) :
    event.Agrees store.path (before.foldl StoreEvent.next content) := by
  induction hhappens generalizing content before with
  | nil => simp at hhistory
  | cons ends _ ih =>
    obtain ⟨hagrees, hholds⟩ := h.step hpath hbeside ends (hsaved _ List.mem_cons_self)
    cases before with
    | nil =>
      obtain ⟨rfl, -⟩ := List.cons.inj hhistory
      exact hagrees
    | cons first before =>
      obtain ⟨rfl, hrest⟩ := List.cons.inj hhistory
      exact ih hholds (fun event hevent => hsaved event (List.mem_cons_of_mem _ hevent)) hrest

/-! ## When a store is a cell -/

/-- Nothing was there if a load finds nothing. -/
theorem find_of_load (h : (store.load.run files).1 = .error (.read store.path .notFound)) :
    files.find store.path = .error .notFound := by
  rw [load_run] at h
  cases hfind : files.find store.path with
  | error fault =>
    rw [Files.read, hfind] at h
    cases h
    rfl
  | ok node =>
    rw [Files.read, hfind] at h
    cases node with
    | directory => cases h
    | file content =>
      change store.loadResult (FileTask.decodeText content) = _ at h
      unfold FileTask.decodeText at h
      split at h
      · rename_i text _
        change decode text = _ at h
        unfold decode at h
        cases hparse : Dataset.parse text with
        | ok => simp [hparse, Except.mapError] at h
        | error => simp [hparse, Except.mapError] at h
      · cases h

/-- A save can fail after any of the missing directories were made. -/
theorem save_ends_of_leaves (hparent : store.path.parent? = some parent)
    (hleaves : (FileChange.makeDirectories parent).Leaves files s) (fault : FileFault) :
    (store.save dataset).Ends files (.error (.makeDirectory parent fault)) s := by
  rw [save_eq, saveChanges, hparent]
  exact .failed (.makeDirectories hleaves fault) (.done _ s)

/-- One more call after others. -/
theorem Happens.concat {history : List StoreEvent} {event : StoreEvent}
    (h : store.Happens history files mid) (hends : (event.call.task store).Ends mid event.answer s) :
    store.Happens (history ++ [event]) files s := by
  induction h with
  | nil => exact .cons hends (.nil s)
  | cons ends _ ih => exact .cons ends (ih hends)

/-- After calls by which no dataset was saved a cell answers as one that holds nothing. -/
theorem IsCell.agrees_none (h : store.IsCell files) {history : List StoreEvent}
    (hhappens : store.Happens history files s) (hsaved : ∀ event ∈ history, event.saved? = none)
    (hlast : lastSaved? history = none) (event : StoreEvent) (hevent : event.saved? = none)
    (hrun : ((event.call.task store).run s).1 = event.answer) : event.Agrees store.path none := by
  have hends := FileTask.ends_run (event.call.task store) s
  rw [hrun] at hends
  rw [← hlast]
  refine h (history ++ [event]) _ (hhappens.concat hends) ?_ history event [] rfl
  intro other hother dataset hdataset
  rcases List.mem_append.1 hother with hother | hother
  · rw [hsaved other hother] at hdataset
    cases hdataset
  · rw [List.mem_singleton.1 hother, hevent] at hdataset
    cases hdataset

/-- So it does after a save that failed. -/
theorem IsCell.agrees_of_save_failed (h : store.IsCell files) {error : StoreError}
    (hsave : (store.save dataset).Ends files (.error error) s) (event : StoreEvent)
    (hevent : event.saved? = none) (hrun : ((event.call.task store).run s).1 = event.answer) :
    event.Agrees store.path none := by
  have hhappens : store.Happens [⟨.save dataset, .error error⟩] files s := .cons hsave (.nil s)
  exact h.agrees_none hhappens (by simp [StoreEvent.saved?]) rfl event hevent hrun

/-- A store that is a cell says that nothing is there, at first and after a save that failed when
directories were made. -/
theorem IsCell.staysAbsent (h : store.IsCell files) : files.StaysAbsent store.path where
  find := find_of_load (h.agrees_none (.nil files) (by simp) rfl ⟨.load, _⟩ rfl rfl)
  find_of_leaves parent hparent s hleaves := by
    have hsave : (store.save .empty).Ends files (.error (.makeDirectory parent .busy)) s :=
      save_ends_of_leaves hparent hleaves .busy
    exact find_of_load (h.agrees_of_save_failed hsave ⟨.load, _⟩ rfl rfl)

/-- A store whose path ends in a name, and not in the extension that is written first, is a cell that
holds nothing if and only if its path names nothing, whatever of the missing directories above it is
made. This is about file systems without symbolic and hard links, as `Files` is. -/
theorem isCell_iff_staysAbsent (hpath : store.path.NamesFile)
    (hextension : store.path.extension? ≠ some "tmp") :
    store.IsCell files ↔ files.StaysAbsent store.path := by
  constructor
  · exact IsCell.staysAbsent
  · intro habsent history s hhappens hsaved before event after hhistory
    have hbeside : store.temporaryPath ≠ store.path :=
      hpath.withExtension_ne (by decide) hextension
    have hholds : store.Holds files none := habsent
    exact hholds.agrees hpath hbeside hhappens hsaved hhistory

/-- A directory with nothing in it. -/
def bare : Files := ⟨["data"], [(["data"], .directory)]⟩

/-- A store whose path leads through two directories that are missing. -/
def deepStore : Store := ⟨⟨"new/deep/dataset.json"⟩⟩

theorem staysAbsent_bare : bare.StaysAbsent deepStore.path := by
  have htree : bare.IsTree := by
    refine ⟨rfl, fun entry hentry => ?_⟩
    rw [bare, List.mem_singleton] at hentry
    rw [hentry]
    rfl
  have hdown : bare.LeadsDown deepStore.path :=
    ⟨[], ["new", "deep"], ["data"], rfl, rfl, by decide⟩
  exact Files.staysAbsent_of_leadsDown htree (by decide) hdown (by decide) rfl

theorem roundTrips_empty : Dataset.empty.RoundTrips := by
  refine ⟨⟨by decide, by decide, by decide⟩, ?_⟩
  have hnone : Dataset.empty.toJson.doubles = [] := rfl
  simp [hnone]

/-- A dataset is saved in this store and loaded again. -/
theorem isCell_deepStore :
    deepStore.path.NamesFile ∧ deepStore.path.extension? ≠ some "tmp" ∧
      bare.StaysAbsent deepStore.path ∧ deepStore.IsCell bare ∧
      ∃ s, deepStore.Happens [⟨.save .empty, .ok ()⟩, ⟨.load, .ok .empty⟩] bare s := by
  have hpath : deepStore.path.NamesFile := by decide
  have hextension : deepStore.path.extension? ≠ some "tmp" := by decide
  refine ⟨hpath, hextension, staysAbsent_bare,
    (isCell_iff_staysAbsent hpath hextension).2 staysAbsent_bare, ?_⟩
  have hsave := FileTask.ends_run (deepStore.save .empty) bare
  have hsaved : ((deepStore.save .empty).run bare).1 = .ok () := rfl
  rw [hsaved] at hsave
  have hholds : deepStore.Holds _ (some .empty) := ⟨roundTrips_empty, find_of_save_ends hsave⟩
  have hload := FileTask.ends_run deepStore.load ((deepStore.save .empty).run bare).2
  rw [hholds.load] at hload
  exact ⟨_, .cons hsave (.cons hload (.nil _))⟩

/-! ## A store that is no cell -/

/-- A store is no cell at which something stands after a save that failed. -/
theorem not_isCell_of_isPresent {error : StoreError}
    (hsave : (store.save dataset).Ends files (.error error) s)
    (hpresent : (store.isPresent.run s).1 = true) : ¬ store.IsCell files := by
  intro hcell
  cases hcell.agrees_of_save_failed hsave ⟨.isPresent, true⟩ rfl hpresent

/-- A store whose path leads into a directory that is missing and up again. -/
def roundaboutStore : Store := ⟨⟨"a/../b.json"⟩⟩

/-- A directory with an older data file, and with a directory in the place of the file beside it. -/
def blocked : Files :=
  ⟨["data"], [(["data"], .directory), (["data", "b.json"], .file (encode .empty).toUTF8),
    (["data", "b.tmp"], .directory)]⟩

/-- That a path is absent, and that the paths above it are directories or absent, is not enough: a
save that fails may have made the directory on the way, and then the older file is found. -/
theorem not_isCell_roundaboutStore :
    roundaboutStore.path.NamesFile ∧ roundaboutStore.path.extension? ≠ some "tmp" ∧
      blocked.find roundaboutStore.path = .error .notFound ∧
      (∀ above ∈ roundaboutStore.path.ancestors.tail,
        blocked.find above = .ok .directory ∨ blocked.find above = .error .notFound) ∧
      ¬ roundaboutStore.IsCell blocked := by
  have habove : roundaboutStore.path.ancestors.tail = [⟨"a/.."⟩, ⟨"a"⟩, ⟨""⟩] := by decide
  refine ⟨by decide, by decide, rfl, ?_, ?_⟩
  · rw [habove]
    simp only [List.forall_mem_cons]
    exact ⟨.inr rfl, .inr rfl, .inr rfl, nofun⟩
  · have hsave := FileTask.ends_run (roundaboutStore.save .empty) blocked
    have hfailed : ((roundaboutStore.save .empty).run blocked).1 =
        .error (.write ⟨"a/../b.tmp"⟩ .isDirectory) := rfl
    rw [hfailed] at hsave
    exact not_isCell_of_isPresent hsave rfl

end Store

end RecordQuery
