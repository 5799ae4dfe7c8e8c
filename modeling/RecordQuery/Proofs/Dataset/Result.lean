/-
RecordQuery.Proofs.Dataset.Result — what the readers of records and datasets return.

A dataset that was read can be written and read again: its user fields have
plain keys, because the reader takes the id and the time of creation for what
they are, its objects list their members in order, and it nests no deeper than
the reader goes. So of the conditions of `Dataset.read_written` a dataset that
comes from a text meets all.

Main statements:
* `Record.read_ensures` — records;
* `Dataset.read_ensures`, `Dataset.isReadable_of_parse` — datasets.
-/
import RecordQuery.Proofs.Dataset.Written
import RecordQuery.Proofs.Json.Result

namespace RecordQuery

open Json (Ensures)

variable {budget levels : Nat}

/-! ## Records -/

namespace Record

/-- The written record is read back by a reader that goes `levels` deep. -/
def IsReadable (levels : Nat) (record : Record) : Prop :=
  record.IsSorted ∧ record.HasPlainKeys ∧ record.toJson.nesting ≤ levels

/-- The user fields that a reader of records can return. -/
def AreUserFields (levels : Nat) (fields : Keyed Json) : Prop :=
  ∀ field ∈ fields.entries,
    (field.1 ≠ "_id" ∧ field.1 ≠ "_creationTime") ∧ field.2.IsWithin levels

theorem isReadable_of_areUserFields {record : Record} (h : AreUserFields levels record.fields) :
    record.IsReadable (levels + 1) :=
  ⟨fun field hfield => (h field hfield).2.1,
    hasPlainKeys_and_nesting_iff.2 fun field hfield => ⟨(h field hfield).1, (h field hfield).2.2⟩⟩

/-- A member of a record leaves user fields with plain keys. -/
theorem readMember_ensures {draft : Draft} (key : String)
    (hdraft : AreUserFields levels draft.fields) :
    Ensures (readMember budget levels draft key) fun draft => AreUserFields levels draft.fields := by
  intro cs found rest hread
  rw [readMember] at hread
  split at hread
  · obtain ⟨⟨id, behind⟩, _, hread⟩ := Except.bind_eq_ok.1 hread
    cases hread
    exact hdraft
  split at hread
  · obtain ⟨⟨created, behind⟩, _, hread⟩ := Except.bind_eq_ok.1 hread
    cases hread
    exact hdraft
  rename_i hid htime
  obtain ⟨_, _, hread⟩ := Except.bind_eq_ok.1 hread
  obtain ⟨⟨v, behind⟩, hv, hread⟩ := Except.bind_eq_ok.1 hread
  cases hread
  intro field hfield
  rcases mem_putEntry hfield with rfl | hfield
  · exact ⟨⟨hid, htime⟩, Json.readValue_ensures budget levels _ _ _ hv⟩
  · exact hdraft field hfield

theorem fields_of_finish {draft : Draft} {record : Record} (h : draft.finish = .ok record) :
    record.fields = draft.fields := by
  rw [Draft.finish] at h
  split at h
  · cases h; rfl
  · cases h
  · cases h

theorem read_ensures (budget levels : Nat) : Ensures (read budget levels) (IsReadable levels) := by
  intro cs record rest hread
  obtain ⟨⟨draft, behind⟩, hdraft, hrecord⟩ := Except.bind_eq_ok.1 hread
  have hfields : Ensures
      (Json.readObject budget levels "struct Record" ({} : Draft) (readMember budget))
      fun draft => ∃ inner, levels = inner + 1 ∧ AreUserFields inner draft.fields :=
    Json.readObject_ensures fun inner hlevels =>
      ⟨fun draft => AreUserFields inner draft.fields, List.forall_mem_nil _,
        fun _ key hdraft => readMember_ensures key hdraft, fun _ hdraft => ⟨inner, hlevels, hdraft⟩⟩
  obtain ⟨inner, rfl, huser⟩ := hfields _ _ _ hdraft
  simp only at hrecord
  split at hrecord
  · rename_i hfinish
    cases hrecord
    rw [← fields_of_finish hfinish] at huser
    exact isReadable_of_areUserFields huser
  · cases hrecord

end Record

/-! ## Datasets -/

namespace Dataset

/-- The written dataset is read back by a reader that goes `levels` deep. -/
def IsReadable (levels : Nat) (dataset : Dataset) : Prop :=
  dataset.IsSorted ∧ dataset.HasPlainKeys ∧ dataset.toJson.nesting ≤ levels

/-- The tables that a reader of datasets can return. -/
def AreTables (levels : Nat) (tables : Keyed (List Record)) : Prop :=
  (∀ table ∈ tables.entries, ∀ record ∈ table.2, record.IsSorted) ∧
    (∀ table ∈ tables.entries, ∀ record ∈ table.2, record.HasPlainKeys) ∧
    (tablesToJson tables).nesting ≤ levels

theorem isReadable_of_areTables {dataset : Dataset} (h : AreTables levels dataset.tables) :
    dataset.IsReadable (levels + 1) :=
  ⟨h.1, h.2.1, nesting_toJson_le_iff.2 h.2.2⟩

theorem areTables_empty : AreTables 1 .empty :=
  ⟨List.forall_mem_nil _, List.forall_mem_nil _, Nat.le_refl 1⟩

theorem readList_ensures (budget levels : Nat) :
    Ensures (Json.readList budget levels (Record.read budget)) fun records =>
      (∀ record ∈ records, record.IsSorted ∧ record.HasPlainKeys) ∧
        (Record.listToJson records).nesting ≤ levels := by
  refine Json.readList_ensures fun inner hlevels => ?_
  refine ⟨Record.IsReadable inner, Record.read_ensures budget inner, fun records h => ?_⟩
  subst hlevels
  exact ⟨fun record hrecord => ⟨(h record hrecord).1, (h record hrecord).2.1⟩,
    Json.nesting_array_le_iff.2 (List.forall_mem_map.2 fun record hrecord => (h record hrecord).2.2)⟩

theorem readTables_ensures (budget levels : Nat) :
    Ensures (readTables budget levels) (AreTables levels) := by
  refine Json.readObject_ensures fun inner hlevels => ?_
  subst hlevels
  refine ⟨fun tables => ∀ table ∈ tables.entries,
      (∀ record ∈ table.2, record.IsSorted ∧ record.HasPlainKeys) ∧
        (Record.listToJson table.2).nesting ≤ inner, List.forall_mem_nil _, ?_, ?_⟩
  · intro tables name htables cs found rest hread
    obtain ⟨_, _, hread⟩ := Except.bind_eq_ok.1 hread
    obtain ⟨⟨records, behind⟩, hrecords, hread⟩ := Except.bind_eq_ok.1 hread
    cases hread
    intro table htable
    rcases mem_putEntry htable with rfl | htable
    · exact readList_ensures budget inner _ _ _ hrecords
    · exact htables table htable
  · intro tables h
    exact ⟨fun table htable record hrecord => ((h table htable).1 record hrecord).1,
      fun table htable record hrecord => ((h table htable).1 record hrecord).2,
      Json.nesting_object_le_iff.2 (List.forall_mem_map.2 fun table htable => (h table htable).2)⟩

/-- The tables of a draft, if they were met. -/
def Draft.HasTables (levels : Nat) (draft : Draft) : Prop :=
  ∀ tables ∈ draft.tables, AreTables levels tables

/-- The tables that a draft lacks are empty ones, which are written two levels deep. -/
theorem isReadable_finish {draft : Draft} (h : draft.HasTables levels) :
    draft.finish.IsReadable (max levels 1 + 1) := by
  refine isReadable_of_areTables ?_
  cases htables : draft.tables with
  | none =>
    have hfinish : draft.finish.tables = .empty := by rw [Draft.finish, htables]; rfl
    rw [hfinish]
    exact ⟨areTables_empty.1, areTables_empty.2.1, Nat.le_max_right ..⟩
  | some tables =>
    have hfinish : draft.finish.tables = tables := by rw [Draft.finish, htables]; rfl
    have hsome := h tables htables
    rw [hfinish]
    exact ⟨hsome.1, hsome.2.1, Nat.le_trans hsome.2.2 (Nat.le_max_left ..)⟩

theorem readMember_ensures {draft : Draft} (key : String) (hdraft : draft.HasTables levels) :
    Ensures (readMember budget levels draft key) (Draft.HasTables levels) := by
  intro cs found rest hread
  rw [readMember] at hread
  split at hread
  · obtain ⟨⟨version, behind⟩, _, hread⟩ := Except.bind_eq_ok.1 hread
    cases hread
    exact hdraft
  split at hread
  · obtain ⟨⟨tables, behind⟩, htables, hread⟩ := Except.bind_eq_ok.1 hread
    cases hread
    rintro _ ⟨⟩
    exact Json.readField_ensures (readTables_ensures budget levels) _ _ _ _ _ htables
  · obtain ⟨⟨_, behind⟩, _, hread⟩ := Except.bind_eq_ok.1 hread
    cases hread
    exact hdraft

theorem readMembers_ensures (budget levels : Nat) :
    Ensures (readMembers budget levels) (IsReadable (max levels 1 + 1)) := by
  intro cs dataset rest hread
  obtain ⟨⟨draft, behind⟩, hdraft, hread⟩ := Except.bind_eq_ok.1 hread
  cases hread
  have hstart : Draft.HasTables levels {} := fun _ h => by cases h
  exact isReadable_finish (Json.readMembers_ensures (fun _ key => readMember_ensures key) true
    hstart _ _ _ hdraft)

theorem readItems_ensures (budget levels : Nat) :
    Ensures (readItems budget levels) (IsReadable (max levels 1 + 1)) := by
  intro cs dataset rest hread
  obtain ⟨⟨version, behind⟩, _, hread⟩ := Except.bind_eq_ok.1 hread
  obtain ⟨⟨tables?, behind'⟩, htables, hread⟩ := Except.bind_eq_ok.1 hread
  cases hread
  exact isReadable_finish
    (Json.readNext_ensures (readTables_ensures budget levels) _ _ _ _ htables)

theorem read_ensures (budget levels : Nat) :
    Ensures (read budget levels) (IsReadable (max levels 2)) := by
  intro cs dataset rest hread
  rw [read, Json.readFieldwise] at hread
  split at hread
  · cases hread
  split at hread
  · cases levels with
    | zero => cases hread
    | succ inner =>
      rw [show max (inner + 1) 2 = max inner 1 + 1 by omega]
      exact readMembers_ensures budget inner _ _ _ hread
  split at hread
  · cases levels with
    | zero => cases hread
    | succ inner =>
      obtain ⟨⟨found, behind⟩, hfound, hread⟩ := Except.bind_eq_ok.1 hread
      obtain ⟨_, _, hread⟩ := Except.bind_eq_ok.1 hread
      cases hread
      rw [show max (inner + 1) 2 = max inner 1 + 1 by omega]
      exact readItems_ensures budget inner _ _ _ hfound
  · cases hread

/-- What a text holds can be written and read again. -/
theorem isReadable_of_parse {text : String} {dataset : Dataset} (h : parse text = .ok dataset) :
    dataset.IsReadable Json.maxLevels := by
  obtain ⟨budget, cs, rest, hread⟩ := Json.exists_of_readWhole h
  exact read_ensures budget Json.maxLevels cs dataset rest hread

end Dataset

end RecordQuery
