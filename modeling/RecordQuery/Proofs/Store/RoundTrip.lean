/-
RecordQuery.Proofs.Store.RoundTrip — which datasets survive being saved.

A dataset is written as one JSON text and read again. It comes back as it was
if three things hold: no user field has the key of the id or of the time of
creation, lists and objects nest no deeper than the reader goes, and every
double is one that the reader takes its own text for. The first two hold of
every dataset that was loaded; they do not hold of every dataset that was built
from records, and then the file cannot be loaded at all. The third fails for
many doubles, because numbers are read by one rounded multiplication or
division, so a number can change each time it is loaded and saved.

Main statements:
* `Store.decode_encode` — when a dataset is read back from either layout;
* `Store.load_save_of_load` — what saving makes of a dataset that was loaded;
* `Store.load_save_of_built` — what saving makes of a dataset that was built.
-/
import RecordQuery.Proofs.Store.SaveLoad

namespace RecordQuery

namespace Store

variable {store : Store} {dataset : Dataset} {files loaded s : Files} {layout : Layout}

/-! ## Texts -/

/-- A written dataset that can be read is read with its doubles read again. -/
theorem decode_written (hlayout : layout.IsBlank) (hreadable : dataset.IsReadable Json.maxLevels) :
    decode (String.ofList (Json.chars layout 0 dataset.toJson)) = .ok dataset.reread := by
  rw [decode, (Dataset.parse_written hlayout hreadable.1).1 hreadable.2]
  rfl

theorem decode_encode_reread (hreadable : dataset.IsReadable Json.maxLevels) :
    decode (encode dataset) = .ok dataset.reread :=
  decode_written Layout.isBlank_pretty hreadable

/-- A dataset that can be read and was saved is loaded with its doubles read again. -/
theorem load_of_save_readable (hreadable : dataset.IsReadable Json.maxLevels)
    (hsave : (store.save dataset).run files = (.ok (), s)) :
    store.load.run s = (.ok dataset.reread, s) := by
  rw [load_of_save hsave, decode_encode_reread hreadable]

/-- A dataset comes back as it was if and only if every double is read from its own text. -/
theorem reread_eq_self_iff_read (hsorted : dataset.IsSorted) :
    dataset.reread = dataset ↔ ∀ x ∈ dataset.toJson.doubles,
      Json.read (String.ofList x.jsonChars) = .ok (.number (.double x)) := by
  rw [Dataset.reread_eq_self_iff hsorted]
  exact forall₂_congr fun x _ => Json.reread_eq_self_iff_read x

/-- A dataset is read back from its text, in the layout of data files and in the compact one, if its
user fields have plain keys, it nests no deeper than the reader goes, and every double in it is read
from its own text. That its objects list their members in order of the keys is what every value has
that this library builds. -/
theorem decode_encode (hsorted : dataset.IsSorted) (hkeys : dataset.HasPlainKeys)
    (hnesting : dataset.toJson.nesting ≤ Json.maxLevels)
    (hdoubles : ∀ x ∈ dataset.toJson.doubles,
      Json.read (String.ofList x.jsonChars) = .ok (.number (.double x))) :
    decode (encode dataset) = .ok dataset ∧ decode dataset.toJson.compact = .ok dataset := by
  have hreadable : dataset.IsReadable Json.maxLevels := ⟨hsorted, hkeys, hnesting⟩
  have hreread := (reread_eq_self_iff_read hsorted).2 hdoubles
  have hpretty := decode_encode_reread hreadable
  have hcompact := decode_written Layout.isBlank_compact hreadable
  rw [hreread] at hpretty hcompact
  exact ⟨hpretty, hcompact⟩

/-- A dataset with what is easily lost: minus zero, the largest double and the largest whole number,
characters that are escaped, and an empty table. -/
def edges : Dataset :=
  ⟨7, ⟨[("empty", []), ("full", [
    ⟨"\"", -1, ⟨[("list", .array [.number (.double ⟨true, .zero⟩), .object [("a", .null),
        ("é\n", .number (.double ⟨false, .largest⟩))]]),
      ("whole", .number (.whole ⟨18446744073709551615, by decide, by decide⟩))], by decide⟩⟩,
    ⟨"", 0, .empty⟩])], by decide⟩⟩

theorem decode_encode_edges :
    edges.IsSorted ∧ edges.HasPlainKeys ∧ edges.toJson.nesting ≤ Json.maxLevels ∧
      (∀ x ∈ edges.toJson.doubles,
        Json.read (String.ofList x.jsonChars) = .ok (.number (.double x))) ∧
      decode (encode edges) = .ok edges ∧ decode edges.toJson.compact = .ok edges := by
  have hsorted : edges.IsSorted := by decide
  have hkeys : edges.HasPlainKeys := by decide
  have hnesting : edges.toJson.nesting ≤ Json.maxLevels := by decide
  have hdoubles : ∀ x ∈ edges.toJson.doubles,
      Json.read (String.ofList x.jsonChars) = .ok (.number (.double x)) := by decide +kernel
  exact ⟨hsorted, hkeys, hnesting, hdoubles,
    decode_encode hsorted hkeys hnesting hdoubles⟩

/-! ## Datasets that were loaded -/

/-- A dataset that was loaded and saved can be loaded again, with its doubles read again. So it is
the same exactly if every double in it is read from its own text. -/
theorem load_save_of_load (hload : store.load.run files = (.ok dataset, loaded))
    (hsave : (store.save dataset).run loaded = (.ok (), s)) :
    store.load.run s = (.ok dataset.reread, s) ∧
      (dataset.reread = dataset ↔ ∀ x ∈ dataset.toJson.doubles,
        Json.read (String.ofList x.jsonChars) = .ok (.number (.double x))) := by
  obtain ⟨text, htext⟩ := exists_of_load hload
  have hreadable := Dataset.isReadable_of_parse htext
  exact ⟨load_of_save_readable hreadable hsave, reread_eq_self_iff_read hreadable.1⟩

/-- A directory with one data file in it. -/
def oneFile (text : String) : Files :=
  ⟨["data"], [(["data"], .directory), (["data", "dataset.json"], .file text.toUTF8)]⟩

/-- The store of this file. -/
def oneStore : Store := ⟨⟨"dataset.json"⟩⟩

theorem find_oneFile (text : String) :
    (oneFile text).find oneStore.path = .ok (.file text.toUTF8) := by
  have htarget : (oneFile text).target oneStore.path =
      .ok (.entry ["data", "dataset.json"] false) := by
    have htext : Files.textFault? oneStore.path = none := by decide
    have hnames : oneStore.path.names = ["dataset.json"] := by decide
    have hlast : Files.lastTarget oneStore.path ["data"] =
        .ok (.entry ["data", "dataset.json"] false) := rfl
    have hbase : (oneFile text).base oneStore.path = ["data"] := if_neg (by decide)
    have henter : (oneFile text).enter ["data"] (["dataset.json"].dropLast) = .ok ["data"] := rfl
    rw [Files.target_eq, htext, hnames, hbase, henter]
    simpa only [Except.bind] using hlast
  have hnode : (oneFile text).node? ["data", "dataset.json"] = some (.file text.toUTF8) := by
    simp [Files.node?, oneFile, List.lookup_cons]
  exact Files.find_file htarget hnode

/-- A dataset of one record with one user field. -/
def oneField (key : String) (value : Json) : Dataset :=
  Dataset.empty.insert "t" ⟨"a", 0, ⟨[(key, value)], List.pairwise_singleton ..⟩⟩

/-- The text of a data file with this number. -/
def numberText (digits : String) : String :=
  "\x7b\"tables\":\x7b\"t\":[\x7b\"_id\":\"a\",\"_creationTime\":0,\"x\":" ++ digits ++ "\x7d]\x7d\x7d"

/-- What the digits 5.6e-29 are read as: 56 divided by a power of ten. -/
def drifting : Dataset :=
  oneField "x" (.number (.double ⟨false, (Json.scale 56 (-30)).getD .zero⟩))

/-- The files after it was loaded and saved. -/
def driftingSaved : Files := ((oneStore.save drifting).run (oneFile (numberText "5.6e-29"))).2

/-- Each time this number is read and written again it gets smaller. -/
theorem drifting_digits :
    decode (numberText "5.6e-29") = .ok drifting ∧
      drifting.toJson.doubles.map FiniteDouble.jsonChars = ["5.599999999999999e-29".toList] ∧
      drifting.reread.toJson.doubles.map FiniteDouble.jsonChars =
        ["5.599999999999998e-29".toList] ∧
      drifting.reread ≠ drifting := by
  decide +kernel

theorem load_save_drifting :
    oneStore.load.run (oneFile (numberText "5.6e-29")) =
        (.ok drifting, oneFile (numberText "5.6e-29")) ∧
      (oneStore.save drifting).run (oneFile (numberText "5.6e-29")) = (.ok (), driftingSaved) := by
  have hsaved : ((oneStore.save drifting).run (oneFile (numberText "5.6e-29"))).1 = .ok () := rfl
  refine ⟨?_, Prod.ext hsaved rfl⟩
  rw [load_of_find (find_oneFile _), drifting_digits.1]

theorem load_save_of_drifting :
    oneStore.load.run (oneFile (numberText "5.6e-29")) =
        (.ok drifting, oneFile (numberText "5.6e-29")) ∧
      (oneStore.save drifting).run (oneFile (numberText "5.6e-29")) = (.ok (), driftingSaved) ∧
      oneStore.load.run driftingSaved = (.ok drifting.reread, driftingSaved) ∧
      (drifting.reread = drifting ↔ ∀ x ∈ drifting.toJson.doubles,
        Json.read (String.ofList x.jsonChars) = .ok (.number (.double x))) :=
  ⟨load_save_drifting.1, load_save_drifting.2,
    load_save_of_load load_save_drifting.1 load_save_drifting.2⟩

/-- Loading, saving and loading again can change a number: what the digits 5.6e-29 are read as is
written 5.599999999999999e-29, and what these digits are read as is written 5.599999999999998e-29. -/
theorem load_save_changes_number :
    oneStore.load.run (oneFile (numberText "5.6e-29")) =
        (.ok drifting, oneFile (numberText "5.6e-29")) ∧
      drifting.toJson.doubles.map FiniteDouble.jsonChars = ["5.599999999999999e-29".toList] ∧
      (oneStore.save drifting).run (oneFile (numberText "5.6e-29")) = (.ok (), driftingSaved) ∧
      oneStore.load.run driftingSaved = (.ok drifting.reread, driftingSaved) ∧
      drifting.reread.toJson.doubles.map FiniteDouble.jsonChars =
        ["5.599999999999998e-29".toList] ∧
      drifting.reread ≠ drifting := by
  obtain ⟨-, hdigits, hagainDigits, hne⟩ := drifting_digits
  have hreadable : drifting.IsReadable Json.maxLevels := ⟨by decide, by decide, by decide⟩
  exact ⟨load_save_drifting.1, hdigits, load_save_drifting.2,
    load_of_save_readable hreadable load_save_drifting.2, hagainDigits, hne⟩

end Store

/-! ## Datasets that were built -/

namespace Dataset

/-- A dataset that was built by inserting records, one after the other, into the empty one. The user
fields of each are an object that some text holds. -/
inductive Built : Dataset → Prop
  | empty : Built .empty
  | insert {dataset : Dataset} {text : String} {fields : Keyed Json} (built : Built dataset)
      (table id : String) (created : Int64) (read : Json.parseMap text = .ok fields) :
      Built (dataset.insert table ⟨id, created, fields⟩)

theorem isSorted_insert {dataset : Dataset} (h : dataset.IsSorted) (table : String)
    {record : Record} (hrecord : record.IsSorted) : (dataset.insert table record).IsSorted := by
  intro entry hentry other hother
  rcases mem_putEntry hentry with rfl | hentry
  · rcases List.mem_append.1 hother with hother | hother
    · cases hold : dataset.table? table with
      | none => simp [hold] at hother
      | some records =>
        rw [hold] at hother
        exact h (table, records) (mem_of_lookup hold) other hother
    · rw [List.mem_singleton.1 hother]
      exact hrecord
  · exact h entry hentry other hother

theorem Built.isSorted {dataset : Dataset} (h : dataset.Built) : dataset.IsSorted := by
  induction h with
  | empty => exact List.forall_mem_nil _
  | insert _ table id created read ih =>
    obtain ⟨budget, cs, rest, hread⟩ := Json.exists_of_readWhole read
    exact isSorted_insert ih table fun field hfield =>
      (Json.readMap_ensures budget Json.maxLevels cs _ rest hread field hfield).1

end Dataset

namespace Store

variable {store : Store} {dataset : Dataset} {files s : Files}

/-- A saved dataset that cannot be read is refused when it is loaded. -/
theorem load_of_save_refused (hsorted : dataset.IsSorted)
    (hsave : (store.save dataset).run files = (.ok (), s))
    (hnot : ¬(dataset.HasPlainKeys ∧ dataset.toJson.nesting ≤ Json.maxLevels)) :
    ∃ e, store.load.run s = (.error (.json e), s) := by
  obtain ⟨e, he⟩ := (Dataset.parse_written Layout.isBlank_pretty hsorted).2 hnot
  have hdecode : decode (encode dataset) = .error (.json e) := by
    rw [decode, encode, Json.pretty, he]
    rfl
  exact ⟨e, by rw [load_of_save hsave, hdecode]⟩

/-- A dataset that was built from records and saved can be loaded, with its doubles read again,
exactly if no record has a user field under the key of the id or the time of creation and lists and
objects nest no deeper than the reader goes. Otherwise the saved text is refused. Both can be asked for
in both ways of calling. -/
theorem load_save_of_built (hbuilt : dataset.Built)
    {saving : StoreCall (Except StoreError Unit)} {loading : StoreCall (Except StoreError Dataset)}
    (hsaving : saving = .save dataset ∨ saving = .saveAsync dataset)
    (hloading : loading = .load ∨ loading = .loadAsync)
    (hsave : (saving.task store).run files = (.ok (), s)) :
    (dataset.HasPlainKeys ∧ dataset.toJson.nesting ≤ Json.maxLevels →
      (loading.task store).run s = (.ok dataset.reread, s)) ∧
    (¬(dataset.HasPlainKeys ∧ dataset.toJson.nesting ≤ Json.maxLevels) →
      ∃ e, (loading.task store).run s = (.error (.json e), s)) := by
  rw [task_of_save hsaving] at hsave
  rw [task_of_load hloading]
  exact ⟨fun hfits => load_of_save_readable ⟨hbuilt.isSorted, hfits⟩ hsave,
    load_of_save_refused hbuilt.isSorted hsave⟩

/-- The files after a dataset with one user field was saved. -/
def savedField (key : String) (value : Json) : Files :=
  ((oneStore.save (oneField key value)).run (oneFile "")).2

theorem save_oneField (key : String) (value : Json) :
    (oneStore.save (oneField key value)).run (oneFile "") = (.ok (), savedField key value) := by
  have hsaved : ((oneStore.save (oneField key value)).run (oneFile "")).1 = .ok () := rfl
  exact Prod.ext hsaved rfl

theorem built_oneField {text : List Char} {key : String} {value : Json}
    (h : Json.readMap (text.length + 1) Json.maxLevels text =
      .ok (⟨[(key, value)], List.pairwise_singleton ..⟩, [])) : (oneField key value).Built := by
  have hread : Json.parseMap (String.ofList text) =
      .ok ⟨[(key, value)], List.pairwise_singleton ..⟩ := by
    rw [Json.parseMap, Json.readWhole_ofList, h]
    rfl
  exact .insert .empty "t" "a" 0 hread

/-- Lists in lists, so many levels deep. -/
def lists : Nat → Json
  | 0 => .null
  | levels + 1 => .array [lists levels]

/-- The text of an object with such lists under one key. -/
def listsText (levels : Nat) : List Char :=
  ['\x7b', '"', 'x', '"', ':'] ++ List.replicate levels '[' ++ ['n', 'u', 'l', 'l'] ++
    List.replicate levels ']' ++ ['\x7d']

theorem built_lists : (oneField "x" (lists 123)).Built ∧ (oneField "x" (lists 124)).Built := by
  have hread : ∀ levels ∈ [123, 124],
      Json.readMap ((listsText levels).length + 1) Json.maxLevels (listsText levels) =
        .ok (⟨[("x", lists levels)], List.pairwise_singleton ..⟩, []) := by
    decide +kernel
  exact ⟨built_oneField (hread 123 (by simp)), built_oneField (hread 124 (by simp))⟩

theorem nesting_lists (levels : Nat) : (lists levels).nesting = levels := by
  induction levels with
  | zero => rfl
  | succ levels ih => simp [lists, Json.nesting, Json.nestingItems, ih]

/-- The whole text nests four levels deeper than a user field. -/
theorem nesting_oneField (key : String) (value : Json) :
    (oneField key value).toJson.nesting = value.nesting + 4 := by
  have hjson : (oneField key value).toJson =
      .object [("version", .number (.whole (.ofUInt32 Dataset.empty.version))),
        ("tables", .object [("t", .array [.object [("_id", .string "a"),
          ("_creationTime", .number (.whole (.ofInt64 0))), (key, value)]])])] := rfl
  rw [hjson]
  simp [Json.nesting, Json.nestingItems, Json.nestingMembers]

/-- With 123 lists in a user field the whole text nests as deep as possible. -/
theorem load_save_of_lists :
    (oneField "x" (lists 123)).Built ∧
      (oneStore.save (oneField "x" (lists 123))).run (oneFile "") =
        (.ok (), savedField "x" (lists 123)) ∧
      oneStore.load.run (savedField "x" (lists 123)) =
        (.ok (oneField "x" (lists 123)).reread, savedField "x" (lists 123)) ∧
      oneStore.loadAsync.run (savedField "x" (lists 123)) =
        (.ok (oneField "x" (lists 123)).reread, savedField "x" (lists 123)) := by
  have hnesting : (oneField "x" (lists 123)).toJson.nesting ≤ Json.maxLevels := by
    rw [nesting_oneField, nesting_lists]
    decide
  have hsave := save_oneField "x" (lists 123)
  have hfits : (oneField "x" (lists 123)).HasPlainKeys ∧
      (oneField "x" (lists 123)).toJson.nesting ≤ Json.maxLevels := ⟨by decide, hnesting⟩
  have hsaveAsync : ((StoreCall.saveAsync (oneField "x" (lists 123))).task oneStore).run
      (oneFile "") = (.ok (), savedField "x" (lists 123)) := by
    rw [task_of_save (.inr rfl)]
    exact hsave
  have hsaveWaiting : ((StoreCall.save (oneField "x" (lists 123))).task oneStore).run
      (oneFile "") = (.ok (), savedField "x" (lists 123)) := hsave
  exact ⟨built_lists.1, hsave,
    (load_save_of_built built_lists.1 (.inl rfl) (.inl rfl) hsaveWaiting).1 hfits,
    (load_save_of_built built_lists.1 (.inr rfl) (.inr rfl) hsaveAsync).1 hfits⟩

/-- A user field under the key of the id is saved, and so are lists one level deeper; neither file
can be loaded. -/
theorem load_save_of_built_refused :
    ((oneField "_id" (.string "x")).Built ∧
      (oneStore.save (oneField "_id" (.string "x"))).run (oneFile "") =
        (.ok (), savedField "_id" (.string "x")) ∧
      ∃ e, oneStore.load.run (savedField "_id" (.string "x")) =
        (.error (.json e), savedField "_id" (.string "x"))) ∧
    ((oneField "x" (lists 124)).Built ∧
      (oneStore.save (oneField "x" (lists 124))).run (oneFile "") =
        (.ok (), savedField "x" (lists 124)) ∧
      ∃ e, oneStore.load.run (savedField "x" (lists 124)) =
        (.error (.json e), savedField "x" (lists 124))) := by
  have hid : (oneField "_id" (.string "x")).Built :=
    built_oneField (show Json.readMap _ _
      ['\x7b', '"', '_', 'i', 'd', '"', ':', '"', 'x', '"', '\x7d'] = _ from rfl)
  have hkeys : ¬(oneField "_id" (.string "x")).HasPlainKeys := by decide
  have hidSave := save_oneField "_id" (.string "x")
  have hnesting : ¬(oneField "x" (lists 124)).toJson.nesting ≤ Json.maxLevels := by
    rw [nesting_oneField, nesting_lists]
    decide
  have hlistsSave := save_oneField "x" (lists 124)
  exact ⟨⟨hid, hidSave, load_of_save_refused hid.isSorted hidSave fun h => hkeys h.1⟩,
    built_lists.2, hlistsSave,
    load_of_save_refused built_lists.2.isSorted hlistsSave fun h => hnesting h.2⟩

end Store

end RecordQuery
