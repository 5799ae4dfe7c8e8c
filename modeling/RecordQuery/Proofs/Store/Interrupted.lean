/-
RecordQuery.Proofs.Store.Interrupted — a save that is cut off.

A save makes the missing directories, writes a file beside the data file and
renames it. As long as the file beside is another file, the data file keeps what
it held until the rename, which gives it the whole new text at once. The file
beside has the same name but for the extension. So it is the data file itself if
that has the extension of the file beside: then a save that is cut off can leave
any part of the new text.

Main statements:
* `Store.held?_of_cutOff_save` — a save that is cut off leaves the old or the new content;
* `Store.cutOff_save_writing` — it can be cut off after any number of bytes.
-/
import RecordQuery.Proofs.Files.Absent
import RecordQuery.Proofs.Store.SaveLoad

namespace RecordQuery

/-! ## The changes of a save -/

namespace Files

variable {files s : Files} {path : Path} {content : ByteArray}

/-- While a file is written beside a path and then renamed, the path holds what it held or the whole
new content. -/
theorem held?_of_cutOff_write_rename (hpath : path.NamesFile) {extension : String}
    (hextension : '/' ∉ extension.toList) (hother : path.withExtension extension ≠ path)
    (h : (FileTask.changeAll [.write (path.withExtension extension) content,
      .rename (path.withExtension extension) path]).CutOff files s) :
    s.held? path = files.held? path ∨ s.held? path = some (.file content) := by
  obtain ⟨above, name, other, hnames, hotherNames, habsolute, hsame⟩ :=
    hpath.exists_withExtension hextension
  have hbeside : ∀ {written : ByteArray} {s : Files},
      files.write (path.withExtension extension) written = .ok s →
        s.held? path = files.held? path := fun hwrite =>
    held?_write hnames hotherNames habsolute (fun heq => hother (hsame heq)) hwrite
  rcases h.changeAll_cons with hleaves | ⟨written, hwrite, h⟩
  · cases hleaves with
    | untouched => exact .inl rfl
    | torn length hwrite => exact .inl (hbeside hwrite)
  have hwrite := FileChange.apply_write_eq_ok.1 hwrite
  have hrenamed : ∀ {s : Files}, written.rename (path.withExtension extension) path = .ok s →
      s.held? path = some (.file content) := by
    intro s hrename
    unfold held?
    rw [find_of_write_rename hwrite hrename]
    rfl
  rcases h.changeAll_cons with hleaves | ⟨renamed, hrename, h⟩
  · cases hleaves with
    | untouched => exact .inl (hbeside hwrite)
    | renamed hrename => exact .inr (hrenamed hrename)
  · rw [h.changeAll_nil]
    exact .inr (hrenamed (FileChange.apply_rename_eq_ok.1 hrename))

end Files

namespace Store

variable {store : Store} {dataset : Dataset} {files made s : Files}

/-- Wherever a save is cut off, in both ways of calling, the data file holds what it held before, or the
complete text of the dataset: if its path ends in a name, and not in the extension that is written
first, and leads up only where directories are there. -/
theorem held?_of_cutOff_save (htree : files.IsTree) (hpath : store.path.NamesFile)
    (hdown : files.LeadsDown store.path) (htemporary : store.temporaryPath ≠ store.path)
    {call : StoreCall (Except StoreError Unit)}
    (hcall : call = .save dataset ∨ call = .saveAsync dataset)
    (h : (call.task store).CutOff files s) :
    s.held? store.path = files.held? store.path ∨
      s.held? store.path = some (.file (encode dataset).toUTF8) := by
  rw [task_of_save hcall, save_eq] at h
  have h := h.of_bind fun answer => by
    cases answer with
    | ok => exact ⟨_, rfl⟩
    | error failed => exact ⟨_, rfl⟩
  unfold saveChanges at h
  have hextension : '/' ∉ "tmp".toList := by decide
  cases hparent : store.path.parent? with
  | none =>
    rw [hparent] at h
    exact Files.held?_of_cutOff_write_rename hpath hextension htemporary h
  | some parent =>
    rw [hparent] at h
    have hmake : ∀ {mid : Files}, (FileChange.makeDirectories parent).Leaves files mid →
        mid.held? store.path = files.held? store.path :=
      Files.held?_of_leaves_makeDirectories htree hpath hdown hparent
    rcases h.changeAll_cons with hleaves | ⟨made, happly, h⟩
    · exact .inl (hmake hleaves)
    · have hmade : made.held? store.path = files.held? store.path := by
        have hleaves := (FileChange.makeDirectories parent).leaves_apply files
        rw [happly] at hleaves
        exact hmake hleaves
      rw [← hmade]
      exact Files.held?_of_cutOff_write_rename hpath hextension htemporary h

/-- A save can be cut off after any number of bytes of the file that is written first. -/
theorem cutOff_save_writing
    (hmade : (FileTask.changeAll (store.path.parent?.toList.map .makeDirectories)).run files =
      (.ok (), made)) (length : Nat)
    (hwrite : made.write store.temporaryPath ((encode dataset).toUTF8.extract 0 length) = .ok s) :
    (store.save dataset).CutOff files s := by
  have hcut : (FileTask.changeAll [.write store.temporaryPath (encode dataset).toUTF8,
      .rename store.temporaryPath store.path]).CutOff made s := .within (.torn length hwrite)
  rw [save_eq]
  exact (hcut.changeAll_append hmade).bind saveEnd

/-- If the data file itself is written first, a save can be cut off with any part of the new text in
the file. -/
theorem exists_cutOff_save_inPlace (htemporary : store.temporaryPath = store.path)
    (hmade : (FileTask.changeAll (store.path.parent?.toList.map .makeDirectories)).run files =
      (.ok (), made))
    (hwrite : made.write store.path (encode dataset).toUTF8 = .ok s) (length : Nat) :
    ∃ s, (store.save dataset).CutOff files s ∧
      s.held? store.path = some (.file ((encode dataset).toUTF8.extract 0 length)) := by
  obtain ⟨torn, htorn⟩ := Files.exists_write hwrite ((encode dataset).toUTF8.extract 0 length)
  refine ⟨torn, cutOff_save_writing hmade length (htemporary ▸ htorn), ?_⟩
  unfold Files.held?
  rw [Files.find_of_write htorn]
  rfl

/-! ## Saves in a directory with one file -/

/-- A directory with an older data file in it. -/
def holding (name : String) : Files :=
  ⟨["data"], [(["data"], .directory),
    (["data", name], .file "\x7b\"tables\":\x7b\x7d\x7d".toUTF8)]⟩

theorem isTree_holding (name : String) : (holding name).IsTree where
  current := rfl
  above entry hentry := by
    simp only [holding, List.mem_cons, List.not_mem_nil, or_false] at hentry
    rcases hentry with rfl | rfl
    · rfl
    · rfl

/-- A data file with an extension of its own. -/
def besideStore : Store := ⟨⟨"dataset.json"⟩⟩

/-- The files when the first byte of the new text was written beside the data file. -/
def firstByteBeside : Files :=
  (holding "dataset.json").put ["data", "dataset.tmp"]
    (.file ((encode .empty).toUTF8.extract 0 1))

theorem held?_of_cutOff_save_firstByte :
    (holding "dataset.json").IsTree ∧ besideStore.path.NamesFile ∧
      (holding "dataset.json").LeadsDown besideStore.path ∧
      besideStore.temporaryPath ≠ besideStore.path ∧
      (besideStore.save .empty).CutOff (holding "dataset.json") firstByteBeside ∧
      (besideStore.saveAsync .empty).CutOff (holding "dataset.json") firstByteBeside ∧
      (firstByteBeside.held? besideStore.path = (holding "dataset.json").held? besideStore.path ∨
        firstByteBeside.held? besideStore.path = some (.file (encode .empty).toUTF8)) := by
  have hpath : besideStore.path.NamesFile := by decide
  have hdown : (holding "dataset.json").LeadsDown besideStore.path :=
    ⟨[], [], ["data"], rfl, rfl, List.not_mem_nil⟩
  have htemporary : besideStore.temporaryPath ≠ besideStore.path := by decide
  have hmade : (FileTask.changeAll (besideStore.path.parent?.toList.map .makeDirectories)).run
      (holding "dataset.json") = (.ok (), holding "dataset.json") := rfl
  have hcut : (besideStore.save .empty).CutOff (holding "dataset.json") firstByteBeside :=
    cutOff_save_writing hmade 1 rfl
  have hcutAsync : (besideStore.saveAsync .empty).CutOff (holding "dataset.json") firstByteBeside := by
    rw [saveAsync_eq]
    exact hcut
  exact ⟨isTree_holding _, hpath, hdown, htemporary, hcut, hcutAsync,
    held?_of_cutOff_save (isTree_holding _) hpath hdown htemporary (.inr rfl) hcutAsync⟩

/-- A data file with the extension of the file that is written first. -/
def inPlaceStore : Store := ⟨⟨"dataset.tmp"⟩⟩

/-- A data file behind a directory of its own name that is not there. -/
def aroundStore : Store := ⟨⟨"b.json/../b.json"⟩⟩

/-- A save that is cut off can leave one byte of the new text in a data file with the extension
`tmp`, and a directory in the place of a data file that was not there. -/
theorem cutOff_save_breaks_file :
    (inPlaceStore.path.NamesFile ∧
      ∃ s, (inPlaceStore.save .empty).CutOff (holding "dataset.tmp") s ∧
        ¬(s.held? inPlaceStore.path = (holding "dataset.tmp").held? inPlaceStore.path ∨
          s.held? inPlaceStore.path = some (.file (encode .empty).toUTF8))) ∧
    (aroundStore.path.NamesFile ∧
      ∃ s, (aroundStore.save .empty).CutOff (holding "dataset.json") s ∧
        ¬(s.held? aroundStore.path = (holding "dataset.json").held? aroundStore.path ∨
          s.held? aroundStore.path = some (.file (encode .empty).toUTF8))) := by
  constructor
  · have hmade : (FileTask.changeAll (inPlaceStore.path.parent?.toList.map .makeDirectories)).run
        (holding "dataset.tmp") = (.ok (), holding "dataset.tmp") := rfl
    have hwrite : (holding "dataset.tmp").write inPlaceStore.path (encode .empty).toUTF8 =
        .ok ((holding "dataset.tmp").put ["data", "dataset.tmp"]
          (.file (encode .empty).toUTF8)) := rfl
    obtain ⟨s, hcut, hheld⟩ := exists_cutOff_save_inPlace rfl hmade hwrite 1
    have hold : (holding "dataset.tmp").held? inPlaceStore.path =
        some (.file "\x7b\"tables\":\x7b\x7d\x7d".toUTF8) := rfl
    refine ⟨by decide, s, hcut, ?_⟩
    rw [hheld, hold]
    simp only [Option.some.injEq, FileNode.file.injEq]
    rintro (hsame | hsame)
    · exact absurd (congrArg ByteArray.size hsame) (by decide)
    · exact absurd (congrArg ByteArray.size hsame) (by decide)
  · have hold : (holding "dataset.json").held? aroundStore.path = none := rfl
    have hnew : ((aroundStore.save .empty).run (holding "dataset.json")).2.held?
        aroundStore.path = some .directory := rfl
    refine ⟨by decide, _, FileTask.cutOff_run _ _, ?_⟩
    rw [hold, hnew]
    simp

end Store

end RecordQuery
