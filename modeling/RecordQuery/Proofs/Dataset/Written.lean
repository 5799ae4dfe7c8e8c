/-
RecordQuery.Proofs.Dataset.Written — a written dataset is read back.

A record is written as one object in which its user fields follow the id and
the time of creation, and the reader tells them apart by their keys alone. So a
user field under one of these two keys makes the record unreadable
(`Record.HasPlainKeys` rules it out), as does nesting deeper than the reader
goes; any other written dataset is read back with its doubles read again.

Main definitions:
* `Record.HasPlainKeys`, `Dataset.HasPlainKeys`;
* `Dataset.IsSorted`, `Dataset.reread`.

Main statements:
* `Record.read_written`, `Dataset.read_written` — reading what was written;
* `Dataset.parse_written` — the same for whole texts;
* `Dataset.reread_eq_self_iff` — nothing changes if and only if no double does.
-/
import RecordQuery.Dataset.Reader
import RecordQuery.Proofs.Json.Value

namespace RecordQuery

open Json (NumberEnd ReadsIf chars isSpace skipSpace)

variable {layout : Layout} {depth budget : Nat} {rest : List Char}

/-! ## Typed values -/

namespace Json

theorem readString_written (hlayout : layout.IsBlank) (text : String) (rest : List Char) :
    readString (layout.afterColon ++ (chars layout depth (.string text) ++ rest)) =
      .ok (text, rest) := by
  rw [readString, skipSpace_append hlayout.afterColon, chars, stringChars, List.cons_append,
    skipSpace_cons (by decide), List.append_assoc]
  exact readText_stringChars text rest

theorem readInt_written (hlayout : layout.IsBlank) {n : Whole} {lower upper : Int}
    (hlower : lower ≤ n.value) (hupper : n.value ≤ upper) (wanted : String)
    (hrest : NumberEnd rest) :
    readInt lower upper wanted
        (layout.afterColon ++ (chars layout depth (.number (.whole n)) ++ rest)) =
      .ok (n.value, rest) := by
  have hread := readNumber_natAbs n hrest
  rw [readInt, skipSpace_append hlayout.afterColon, chars, numberChars, Whole.chars,
    List.append_assoc]
  cases hnegative : decide (n.value < 0) with
  | true =>
    rw [hnegative] at hread
    rw [signChars, if_pos rfl, List.singleton_append, skipSpace_cons (by decide)]
    simp [hread, Except.bind, hlower, hupper]
  | false =>
    rw [hnegative] at hread
    obtain ⟨c, more, hcs, hc⟩ := exists_digit_of_readNumber hread
    have hminus : c ≠ '-' := ne_of_isDigit hc (by decide)
    rw [signChars, if_neg (by decide), List.nil_append, hcs, skipSpace_cons (isSpace_of_isDigit hc)]
    rw [hcs] at hread
    simp [hminus, hc, hread, Except.bind, hlower, hupper]

theorem readList_blank {α : Type} {blank : List Char} (hblank : ∀ c ∈ blank, isSpace c = true)
    (levels : Nat) (item : Nat → Reader α) (cs : List Char) :
    readList budget levels item (blank ++ cs) = readList budget levels item cs := by
  rw [readList, readList, skipSpace_append hblank]

theorem readObject_blank {σ : Type} {blank : List Char} (hblank : ∀ c ∈ blank, isSpace c = true)
    (levels : Nat) (wanted : String) (initial : σ) (member : Nat → σ → String → Reader σ)
    (cs : List Char) :
    readObject budget levels wanted initial member (blank ++ cs) =
      readObject budget levels wanted initial member cs := by
  rw [readObject, readObject, skipSpace_append hblank]

end Json

/-! ## Records -/

namespace Record

/-- No user field has the key under which the id or the time of creation is written. -/
def HasPlainKeys (record : Record) : Prop :=
  "_id" ∉ record.fields.keys ∧ "_creationTime" ∉ record.fields.keys

instance : DecidablePred HasPlainKeys := fun record =>
  inferInstanceAs (Decidable ("_id" ∉ record.fields.keys ∧ "_creationTime" ∉ record.fields.keys))

/-- The objects in the user fields list their members in order of the keys. -/
def IsSorted (record : Record) : Prop := ∀ field ∈ record.fields.entries, field.2.IsSorted

instance : DecidablePred IsSorted := fun record =>
  inferInstanceAs (Decidable (∀ field ∈ record.fields.entries, field.2.IsSorted))

/-- The record with each double in its user fields read again. -/
def reread (record : Record) : Record :=
  { record with fields := record.fields.mapValues Json.reread }

variable {record : Record} {levels : Nat}

theorem hasPlainKeys_iff :
    record.HasPlainKeys ↔
      ∀ field ∈ record.fields.entries, field.1 ≠ "_id" ∧ field.1 ≠ "_creationTime" := by
  simp only [HasPlainKeys, Keyed.keys, List.mem_map, not_exists, not_and]
  exact ⟨fun h field hfield => ⟨h.1 field hfield, h.2 field hfield⟩,
    fun h => ⟨fun field hfield => (h field hfield).1, fun field hfield => (h field hfield).2⟩⟩

/-- The state of the reader once id and time of creation are met. -/
def Draft.ofFields (id : String) (created : Int) (fields : Keyed Json) : Draft :=
  ⟨some id, some created, fields⟩

theorem finish_ofFields (id : String) (created : Int64) (fields : Keyed Json) :
    (Draft.ofFields id created.toInt fields).finish = .ok ⟨id, created, fields⟩ := by
  show Except.ok (⟨id, Int64.ofInt created.toInt, fields⟩ : Record) = _
  rw [Int64.ofInt_toInt]

/-- Neither of the two keys may come a second time. -/
theorem readMember_twice {key : String} (hkey : key = "_id" ∨ key = "_creationTime")
    (budget levels : Nat) (id : String) (created : Int) (fields : Keyed Json) (cs : List Char) :
    readMember budget levels (Draft.ofFields id created fields) key cs =
      .error (Json.duplicateFault key cs) := by
  by_cases hid : key = "_id"
  · rw [readMember, if_pos hid]
    rfl
  · rw [readMember, if_neg hid, if_pos (hkey.resolve_left hid)]
    rfl

/-- A written user field is read into the draft, unless it has one of the two other keys or nests
too deep. -/
theorem readMember_field (hlayout : layout.IsBlank) {field : String × Json}
    (hsorted : field.2.IsSorted) (hbudget : (chars layout depth field.2).length ≤ budget)
    (levels : Nat) (id : String) (created : Int) (fields : Keyed Json) (hrest : NumberEnd rest) :
    ReadsIf ((field.1 ≠ "_id" ∧ field.1 ≠ "_creationTime") ∧ field.2.nesting ≤ levels)
      (Draft.ofFields id created (fields.insert field.1 field.2.reread)) rest
      (readMember budget levels (Draft.ofFields id created fields) field.1
        (':' :: (layout.afterColon ++ (chars layout depth field.2 ++ rest)))) := by
  by_cases hreserved : field.1 = "_id" ∨ field.1 = "_creationTime"
  · exact .of_error _ (readMember_twice hreserved ..) (by simp; tauto)
  obtain ⟨hid, htime⟩ := not_or.1 hreserved
  have hvalue := Json.readValue_written hlayout hsorted hbudget levels hrest
  have hmember : readMember budget levels (Draft.ofFields id created fields) field.1
      (':' :: (layout.afterColon ++ (chars layout depth field.2 ++ rest))) =
      (Json.readValue budget levels (chars layout depth field.2 ++ rest)).map fun found =>
        (Draft.ofFields id created (fields.insert field.1 found.1), found.2) := by
    rw [readMember, if_neg hid, if_neg htime, Json.readColon_written]
    show (Json.readValue budget levels (layout.afterColon ++ _)).bind _ = _
    rw [Json.readValue_blank hlayout.afterColon]
    cases Json.readValue budget levels (chars layout depth field.2 ++ rest) <;> rfl
  rw [hmember]
  exact (hvalue.map fun value => Draft.ofFields id created (fields.insert field.1 value)).congr
    (by simp [hid, htime])

theorem nesting_toJson_le_iff :
    record.toJson.nesting ≤ levels + 1 ↔
      ∀ field ∈ record.fields.entries, field.2.nesting ≤ levels := by
  rw [toJson, Json.nesting_object_le_iff]
  simp [Json.nesting]

/-- What makes a record readable, told of each of its user fields. -/
theorem hasPlainKeys_and_nesting_iff :
    record.HasPlainKeys ∧ record.toJson.nesting ≤ levels + 1 ↔
      ∀ field ∈ record.fields.entries,
        (field.1 ≠ "_id" ∧ field.1 ≠ "_creationTime") ∧ field.2.nesting ≤ levels := by
  rw [hasPlainKeys_iff, nesting_toJson_le_iff]
  exact ⟨fun h field hfield => ⟨h.1 field hfield, h.2 field hfield⟩,
    fun h => ⟨fun field hfield => (h field hfield).1, fun field hfield => (h field hfield).2⟩⟩

theorem length_fields_lt (layout : Layout) (depth : Nat) (record : Record) :
    record.fields.entries.length + 2 < (chars layout depth record.toJson).length :=
  Json.length_lt_object layout depth (("_id", .string record.id) ::
    ("_creationTime", .number (.whole (.ofInt64 record.created))) :: record.fields.entries)

theorem readMember_id (hlayout : layout.IsBlank) (levels : Nat) (id : String) (rest : List Char) :
    readMember budget levels {} "_id"
        (':' :: (layout.afterColon ++ (chars layout depth (.string id) ++ rest))) =
      .ok ({ id := some id }, rest) := by
  rw [readMember, if_pos rfl, Json.readField, Json.readColon_written]
  show ((Json.readString _).bind _) = _
  rw [Json.readString_written hlayout]
  rfl

theorem readMember_created (hlayout : layout.IsBlank) (levels : Nat) (id : String)
    (created : Int64) (hrest : NumberEnd rest) :
    readMember budget levels { id := some id } "_creationTime"
        (':' :: (layout.afterColon ++
          (chars layout depth (.number (.whole (.ofInt64 created))) ++ rest))) =
      .ok (Draft.ofFields id created.toInt .empty, rest) := by
  have hlower : -9223372036854775808 ≤ (Whole.ofInt64 created).value := Int64.le_toInt created
  have hupper : (Whole.ofInt64 created).value ≤ 9223372036854775807 :=
    Int.lt_add_one_iff.1 (Int64.toInt_lt created)
  rw [readMember, if_neg (by decide), if_pos rfl, Json.readField, Json.readColon_written]
  show ((readTime _).bind _) = _
  rw [readTime, Json.readInt_written hlayout hlower hupper _ hrest]
  rfl

/-- The members of a written record: the id, the time of creation, and then the user fields. -/
theorem readMembers_written (hlayout : layout.IsBlank) (hsorted : record.IsSorted)
    (hbudget : (chars layout depth record.toJson).length ≤ budget) (inner : Nat)
    (rest : List Char) :
    ReadsIf (record.HasPlainKeys ∧ record.toJson.nesting ≤ inner + 1)
      (Draft.ofFields record.id record.created.toInt (record.fields.mapValues Json.reread)) rest
      (Json.readObject budget (inner + 1) "struct Record" {} (readMember budget)
        (chars layout depth record.toJson ++ rest)) := by
  have hlength := length_fields_lt layout depth record
  obtain ⟨budget, rfl⟩ : ∃ n, budget = n + 2 := ⟨budget - 2, by omega⟩
  have hblank := hlayout.lineBreak (depth + 1)
  have hfields : ReadsIf
      (∀ field ∈ record.fields.entries,
        (field.1 ≠ "_id" ∧ field.1 ≠ "_creationTime") ∧ field.2.nesting ≤ inner)
      (Draft.ofFields record.id record.created.toInt
        (record.fields.entries.foldl (fun fields field => fields.insert field.1 field.2.reread)
          .empty)) rest
      (Json.readMembers (readMember (budget + 2) inner) budget false
        (Draft.ofFields record.id record.created.toInt .empty)
        (Json.commaChars (layout.lineBreak (depth + 1))
            (Json.memberText layout.afterColon (chars layout (depth + 1))) record.fields.entries ++
          (layout.lineBreak depth ++ '}' :: rest))) :=
    Json.readMembers_behind hblank (hlayout.lineBreak depth) record.fields.entries .empty rest
      (fun field hfield fields rest hrest =>
        readMember_field hlayout (hsorted field hfield)
          (Nat.le_trans (Json.length_member_le (by simp [hfield])) hbudget) inner _ _ fields hrest)
      (by omega)
  have hbrace : ∀ cs, skipSpace ('{' :: cs) = '{' :: cs := Json.skipSpace_cons (by decide)
  rw [Keyed.foldl_insert] at hfields
  refine ReadsIf.congr ?_ hasPlainKeys_and_nesting_iff.symm
  rw [toJson, Json.chars_object, Json.commaChars_cons, Json.readObject, hbrace,
    Json.memberText_append]
  show ReadsIf _ _ _ (Json.readMembers (readMember (budget + 2) inner) (budget + 2) true {} _)
  rw [Json.readMembers_entry (Json.nextKey_first hblank), readMember_id hlayout]
  show ReadsIf _ _ _ (Json.readMembers _ (budget + 1) false ({ id := some record.id } : Draft) _)
  rw [List.cons_append, List.append_assoc, List.append_assoc, Json.memberText_append,
    Json.readMembers_entry (Json.nextKey_next hblank),
    readMember_created hlayout _ _ _ (Json.numberEnd_commaChars _ _ _ (hlayout.lineBreak depth)
      (Json.numberEnd_cons (by decide) rest))]
  exact hfields

/-- A written record is read back, with its doubles read again, if its keys are plain and it nests
no deeper than the reader goes; otherwise it is refused. -/
theorem read_written (hlayout : layout.IsBlank) (hsorted : record.IsSorted)
    (hbudget : (chars layout depth record.toJson).length ≤ budget) (levels : Nat)
    (rest : List Char) :
    ReadsIf (record.HasPlainKeys ∧ record.toJson.nesting ≤ levels) record.reread rest
      (read budget levels (chars layout depth record.toJson ++ rest)) := by
  cases levels with
  | zero =>
    have hdeep : read budget 0 (chars layout depth record.toJson ++ rest) =
        .error (.next .tooDeep (chars layout depth record.toJson ++ rest)) := by
      rw [toJson, Json.chars_object, read, Json.readObject, Json.skipSpace_cons (by decide)]
      rfl
    exact .of_error _ hdeep (by simp [toJson, Json.nesting])
  | succ inner =>
    refine ReadsIf.congr (ReadsIf.bind (readMembers_written hlayout hsorted hbudget inner rest)
      (?_ : ReadsIf True _ _ _)) (by simp)
    simp only [finish_ofFields]
    exact .of_ok rfl trivial

theorem mem_doubles_toJson {x : FiniteDouble} :
    x ∈ record.toJson.doubles ↔ ∃ field ∈ record.fields.entries, x ∈ field.2.doubles := by
  rw [toJson, Json.doubles, Json.mem_doublesMembers]
  simp [Json.doubles]

/-- A record comes back as it was if and only if every double in it does. -/
theorem reread_eq_self_iff (hsorted : record.IsSorted) :
    record.reread = record ↔
      ∀ field ∈ record.fields.entries, ∀ x ∈ field.2.doubles, x.reread = x := by
  have hfields : record.reread = record ↔ record.fields.mapValues Json.reread = record.fields :=
    ⟨congrArg Record.fields, fun h => by rw [reread, h]⟩
  rw [hfields, Keyed.mapValues_eq_self_iff]
  exact forall₂_congr fun field hfield => (hsorted field hfield).reread_eq_self_iff

end Record

/-! ## Datasets -/

namespace Dataset

/-- No record has a user field under the key of its id or its time of creation. -/
def HasPlainKeys (dataset : Dataset) : Prop :=
  ∀ table ∈ dataset.tables.entries, ∀ record ∈ table.2, record.HasPlainKeys

instance : DecidablePred HasPlainKeys := fun dataset =>
  inferInstanceAs
    (Decidable (∀ table ∈ dataset.tables.entries, ∀ record ∈ table.2, record.HasPlainKeys))

/-- The objects in the user fields list their members in order of the keys. -/
def IsSorted (dataset : Dataset) : Prop :=
  ∀ table ∈ dataset.tables.entries, ∀ record ∈ table.2, record.IsSorted

instance : DecidablePred IsSorted := fun dataset =>
  inferInstanceAs
    (Decidable (∀ table ∈ dataset.tables.entries, ∀ record ∈ table.2, record.IsSorted))

/-- The dataset with each double in its user fields read again. -/
def reread (dataset : Dataset) : Dataset :=
  { dataset with tables := dataset.tables.mapValues (List.map Record.reread) }

variable {dataset : Dataset} {levels : Nat}

/-- The tables as an object. -/
def tablesToJson (tables : Keyed (List Record)) : Json :=
  .object (tables.entries.map (mapEntry Record.listToJson))

theorem toJson_eq (dataset : Dataset) :
    dataset.toJson = .object [("version", .number (.whole (.ofUInt32 dataset.version))),
      ("tables", tablesToJson dataset.tables)] := rfl

theorem nesting_toJson_le_iff :
    dataset.toJson.nesting ≤ levels + 1 ↔ (tablesToJson dataset.tables).nesting ≤ levels := by
  rw [toJson_eq, Json.nesting_object_le_iff]
  simp [Json.nesting]

/-- The records of a written table. -/
theorem readList_records (hlayout : layout.IsBlank) {records : List Record}
    (hsorted : ∀ record ∈ records, record.IsSorted)
    (hbudget : (chars layout depth (Record.listToJson records)).length ≤ budget) (levels : Nat)
    (rest : List Char) :
    ReadsIf ((∀ record ∈ records, record.HasPlainKeys) ∧
        (Record.listToJson records).nesting ≤ levels)
      (records.map Record.reread) rest
      (Json.readList budget levels (Record.read budget)
        (chars layout depth (Record.listToJson records) ++ rest)) := by
  have hread : ReadsIf
      (∃ inner, levels = inner + 1 ∧
        ∀ record ∈ records, record.HasPlainKeys ∧ record.toJson.nesting ≤ inner)
      (records.map Record.reread) rest
      (Json.readList budget levels (Record.read budget)
        (chars layout depth (.array (records.map Record.toJson)) ++ rest)) :=
    Json.readList_written hlayout records
      (fun inner record hrecord rest _ => Record.read_written hlayout (hsorted record hrecord)
        (Nat.le_trans (Json.length_item_le (List.mem_map_of_mem hrecord)) hbudget) inner rest)
      hbudget levels rest
  refine hread.congr ?_
  rw [Record.listToJson, Json.nesting_array_le_iff_exists]
  constructor
  · rintro ⟨inner, rfl, h⟩
    exact ⟨fun record hrecord => (h record hrecord).1, inner, rfl,
      List.forall_mem_map.2 fun record hrecord => (h record hrecord).2⟩
  · rintro ⟨hkeys, inner, rfl, h⟩
    exact ⟨inner, rfl, fun record hrecord =>
      ⟨hkeys record hrecord, List.forall_mem_map.1 h record hrecord⟩⟩

/-- A member of the object of tables: the records go under the name. -/
def readTable (budget levels : Nat) (tables : Keyed (List Record)) (name : String) :
    Json.Reader (Keyed (List Record)) := fun cs => do
  let (records, rest) ← Json.readList budget levels (Record.read budget) (← Json.readColon cs)
  .ok (tables.insert name records, rest)

theorem readTables_eq (budget levels : Nat) (cs : List Char) :
    readTables budget levels cs =
      Json.readObject budget levels "a map" .empty (readTable budget) cs := rfl

theorem readTable_written (hlayout : layout.IsBlank) {fits : Prop} {records : List Record}
    {text : List Char}
    (h : ReadsIf fits records rest
      (Json.readList budget levels (Record.read budget) (text ++ rest)))
    (tables : Keyed (List Record)) (name : String) :
    ReadsIf fits (tables.insert name records) rest
      (readTable budget levels tables name (':' :: (layout.afterColon ++ (text ++ rest)))) := by
  have hrecords : readTable budget levels tables name
      (':' :: (layout.afterColon ++ (text ++ rest))) =
      (Json.readList budget levels (Record.read budget) (text ++ rest)).map fun found =>
        (tables.insert name found.1, found.2) := by
    rw [readTable, Json.readColon_written]
    show (Json.readList budget levels (Record.read budget) (layout.afterColon ++ _)).bind _ = _
    rw [Json.readList_blank hlayout.afterColon]
    cases Json.readList budget levels (Record.read budget) (text ++ rest) <;> rfl
  rw [hrecords]
  exact h.map fun records => tables.insert name records

theorem length_table_le {tables : Keyed (List Record)} {table : String × List Record}
    (h : table ∈ tables.entries) :
    (chars layout (depth + 1) (Record.listToJson table.2)).length ≤
      (chars layout depth (tablesToJson tables)).length := by
  have hmem : mapEntry Record.listToJson table ∈ tables.entries.map (mapEntry Record.listToJson) :=
    List.mem_map_of_mem h
  exact Json.length_member_le hmem

/-- Written tables are read back, with their doubles read again, if all keys are plain and they
nest no deeper than the reader goes; otherwise they are refused. -/
theorem readTables_written (hlayout : layout.IsBlank) {tables : Keyed (List Record)}
    (hsorted : ∀ table ∈ tables.entries, ∀ record ∈ table.2, record.IsSorted)
    (hbudget : (chars layout depth (tablesToJson tables)).length ≤ budget) (levels : Nat)
    (rest : List Char) :
    ReadsIf ((∀ table ∈ tables.entries, ∀ record ∈ table.2, record.HasPlainKeys) ∧
        (tablesToJson tables).nesting ≤ levels)
      (tables.mapValues (List.map Record.reread)) rest
      (readTables budget levels (chars layout depth (tablesToJson tables) ++ rest)) := by
  have hread : ReadsIf
      (∃ inner, levels = inner + 1 ∧ ∀ table ∈ tables.entries,
        (∀ record ∈ table.2, record.HasPlainKeys) ∧
          (Record.listToJson table.2).nesting ≤ inner)
      (id (tables.entries.foldl
        (fun sofar table => sofar.insert table.1 (table.2.map Record.reread)) .empty)) rest
      (Json.readObject budget levels "a map" (id .empty) (readTable budget)
        (chars layout depth (.object (tables.entries.map (mapEntry Record.listToJson))) ++ rest)) :=
    Json.readObject_written hlayout tables.entries .empty
      (fun inner table htable sofar rest _ => readTable_written hlayout
        (readList_records hlayout (hsorted table htable)
          (Nat.le_trans (length_table_le htable) hbudget) inner rest)
        sofar table.1)
      hbudget levels "a map" rest
  rw [id, Keyed.foldl_insert] at hread
  refine hread.congr ?_
  rw [tablesToJson, Json.nesting_object_le_iff_exists]
  constructor
  · rintro ⟨inner, rfl, h⟩
    exact ⟨fun table htable => (h table htable).1, inner, rfl,
      List.forall_mem_map.2 fun table htable => (h table htable).2⟩
  · rintro ⟨hkeys, inner, rfl, h⟩
    exact ⟨inner, rfl, fun table htable =>
      ⟨hkeys table htable, List.forall_mem_map.1 h table htable⟩⟩

theorem finish_draft (version : UInt32) (tables : Keyed (List Record)) :
    Draft.finish ⟨some (Whole.ofUInt32 version).value, some tables⟩ = ⟨version, tables⟩ := by
  have hversion : UInt32.ofInt (Whole.ofUInt32 version).value = version := by
    have hmod : ((version.toNat : Int) % 2 ^ 32).toNat = version.toNat := by
      have := version.toNat_lt
      omega
    show UInt32.ofNat ((version.toNat : Int) % 2 ^ 32).toNat = version
    rw [hmod, UInt32.ofNat_toNat]
  show (⟨UInt32.ofInt (Whole.ofUInt32 version).value, tables⟩ : Dataset) = _
  rw [hversion]

theorem readMember_version (hlayout : layout.IsBlank) (levels : Nat) (version : UInt32)
    (hrest : NumberEnd rest) :
    readMember budget levels {} "version"
        (':' :: (layout.afterColon ++
          (chars layout depth (.number (.whole (.ofUInt32 version))) ++ rest))) =
      .ok ({ version := some (Whole.ofUInt32 version).value }, rest) := by
  have hlower : 0 ≤ (Whole.ofUInt32 version).value := Int.natCast_nonneg _
  have hupper : (Whole.ofUInt32 version).value ≤ 4294967295 :=
    Int.lt_add_one_iff.1 (Int.ofNat_lt.2 version.toNat_lt)
  rw [readMember, if_pos rfl, Json.readField, Json.readColon_written]
  show ((readVersion _).bind _) = _
  rw [readVersion, Json.readInt_written hlayout hlower hupper _ hrest]
  rfl

/-- The member with the tables ends the draft. -/
theorem readMember_tables (hlayout : layout.IsBlank) (hsorted : dataset.IsSorted)
    (hbudget : (chars layout depth (tablesToJson dataset.tables)).length ≤ budget) (levels : Nat)
    (version : Int) (rest : List Char) :
    ReadsIf (dataset.HasPlainKeys ∧ (tablesToJson dataset.tables).nesting ≤ levels)
      ({ version := some version, tables := some dataset.reread.tables } : Draft) rest
      (readMember budget levels { version := some version } "tables"
        (':' :: (layout.afterColon ++
          (chars layout depth (tablesToJson dataset.tables) ++ rest)))) := by
  have htables := readTables_written hlayout hsorted hbudget levels rest
  have hmember : readMember budget levels { version := some version } "tables"
      (':' :: (layout.afterColon ++ (chars layout depth (tablesToJson dataset.tables) ++ rest))) =
      (readTables budget levels (chars layout depth (tablesToJson dataset.tables) ++ rest)).map
        fun found => ({ version := some version, tables := some found.1 }, found.2) := by
    rw [readMember, if_neg (by decide), if_pos rfl, Json.readField, Json.readColon_written]
    show (readTables budget levels (layout.afterColon ++ _)).bind _ = _
    rw [readTables_eq, Json.readObject_blank hlayout.afterColon, ← readTables_eq]
    cases readTables budget levels (chars layout depth (tablesToJson dataset.tables) ++ rest) <;> rfl
  rw [hmember]
  exact htables.map fun tables => ({ version := some version, tables := some tables } : Draft)

/-- The members of a written dataset: the version and then the tables. -/
theorem readMembers_written (hlayout : layout.IsBlank) (hsorted : dataset.IsSorted)
    (hbudget : (chars layout depth dataset.toJson).length ≤ budget) (inner : Nat)
    (rest : List Char) :
    ReadsIf (dataset.HasPlainKeys ∧ dataset.toJson.nesting ≤ inner + 1)
      ({ version := some (Whole.ofUInt32 dataset.version).value,
         tables := some dataset.reread.tables } : Draft) rest
      (Json.readMembers (readMember budget inner) budget true {}
        (layout.lineBreak (depth + 1) ++
          (Json.memberText layout.afterColon (chars layout (depth + 1))
              ("version", .number (.whole (.ofUInt32 dataset.version))) ++
            ',' :: (layout.lineBreak (depth + 1) ++
              (Json.memberText layout.afterColon (chars layout (depth + 1))
                ("tables", tablesToJson dataset.tables) ++
                (layout.lineBreak depth ++ '}' :: rest)))))) := by
  have hlength := Json.length_lt_object layout depth
    [("version", .number (.whole (.ofUInt32 dataset.version))),
      ("tables", tablesToJson dataset.tables)]
  have htables : (chars layout (depth + 1) (tablesToJson dataset.tables)).length ≤ budget :=
    Nat.le_trans (Json.length_member_le (m := ("tables", tablesToJson dataset.tables))
      (List.mem_cons_of_mem _ (List.mem_cons_self ..))) hbudget
  obtain ⟨budget, rfl⟩ : ∃ n, budget = n + 3 := ⟨budget - 3, by
    rw [toJson_eq] at hbudget; simp only [List.length_cons, List.length_nil] at hlength; omega⟩
  have hblank := hlayout.lineBreak (depth + 1)
  have hclose := hlayout.lineBreak depth
  rw [Json.memberText_append, Json.readMembers_entry (Json.nextKey_first hblank),
    readMember_version hlayout _ _ (Json.numberEnd_cons (by decide) _)]
  show ReadsIf _ _ _ (Json.readMembers _ (budget + 2) false
    ({ version := some (Whole.ofUInt32 dataset.version).value } : Draft) _)
  rw [Json.memberText_append, Json.readMembers_entry (Json.nextKey_next hblank)]
  refine ((readMember_tables hlayout hsorted htables inner _ _).bind
    (.of_ok (Json.readMembers_close _ budget false _ hclose) trivial)).congr ?_
  rw [nesting_toJson_le_iff, and_true]

/-- A written dataset is read back, with its doubles read again, if all keys are plain and it nests
no deeper than the reader goes; otherwise it is refused. -/
theorem read_written (hlayout : layout.IsBlank) (hsorted : dataset.IsSorted)
    (hbudget : (chars layout depth dataset.toJson).length ≤ budget) (levels : Nat)
    (rest : List Char) :
    ReadsIf (dataset.HasPlainKeys ∧ dataset.toJson.nesting ≤ levels) dataset.reread rest
      (read budget levels (chars layout depth dataset.toJson ++ rest)) := by
  have hbrace : ∀ cs, skipSpace ('{' :: cs) = '{' :: cs := Json.skipSpace_cons (by decide)
  cases levels with
  | zero =>
    have hdeep : read budget 0 (chars layout depth dataset.toJson ++ rest) =
        .error (.next .tooDeep (chars layout depth dataset.toJson ++ rest)) := by
      rw [toJson_eq, Json.chars_object, read, Json.readFieldwise, hbrace]
      rfl
    exact .of_error _ hdeep (by simp [toJson, Json.nesting])
  | succ inner =>
    have hmembers := readMembers_written hlayout hsorted hbudget inner rest
    have hfinish : ReadsIf True dataset.reread rest
        (.ok (Draft.finish ⟨some (Whole.ofUInt32 dataset.version).value,
          some dataset.reread.tables⟩, rest)) :=
      .of_ok (by rw [finish_draft]; rfl) trivial
    rw [toJson_eq, Json.chars_object, Json.commaChars_cons, List.cons_append, List.append_assoc,
      List.append_assoc, read, Json.readFieldwise, hbrace]
    exact (hmembers.bind hfinish).congr (by simp [toJson_eq])

/-! ## Texts -/

/-- The text of a dataset, in either layout, is read as the dataset with its doubles read again, if
all keys are plain and it nests no deeper than the reader goes; otherwise it is refused. -/
theorem parse_written (hlayout : layout.IsBlank) (hsorted : dataset.IsSorted) :
    (dataset.HasPlainKeys ∧ dataset.toJson.nesting ≤ Json.maxLevels →
      parse (String.ofList (chars layout 0 dataset.toJson)) = .ok dataset.reread) ∧
    (¬(dataset.HasPlainKeys ∧ dataset.toJson.nesting ≤ Json.maxLevels) →
      ∃ e, parse (String.ofList (chars layout 0 dataset.toJson)) = .error e) := by
  have hbudget : (chars layout 0 dataset.toJson).length ≤ (chars layout 0 dataset.toJson).length + 1 :=
    Nat.le_succ _
  have hread := read_written hlayout hsorted hbudget Json.maxLevels []
  rw [List.append_nil] at hread
  exact Json.readWhole_written hread

/-! ## Doubles -/

theorem mem_doubles_toJson {x : FiniteDouble} :
    x ∈ dataset.toJson.doubles ↔
      ∃ table ∈ dataset.tables.entries, ∃ record ∈ table.2,
        ∃ field ∈ record.fields.entries, x ∈ field.2.doubles := by
  have htable : ∀ records : List Record, x ∈ (Record.listToJson records).doubles ↔
      ∃ record ∈ records, ∃ field ∈ record.fields.entries, x ∈ field.2.doubles := by
    intro records
    rw [Record.listToJson, Json.doubles, Json.mem_doublesItems]
    simp [Record.mem_doubles_toJson]
  rw [toJson_eq, Json.doubles, Json.mem_doublesMembers]
  simp [Json.doubles, tablesToJson, Json.mem_doublesMembers, mapEntry, htable]

/-- A dataset comes back as it was if and only if every double in it does. -/
theorem reread_eq_self_iff (hsorted : dataset.IsSorted) :
    dataset.reread = dataset ↔ ∀ x ∈ dataset.toJson.doubles, x.reread = x := by
  have htables : dataset.reread = dataset ↔
      dataset.tables.mapValues (List.map Record.reread) = dataset.tables :=
    ⟨congrArg Dataset.tables, fun h => by rw [reread, h]⟩
  rw [htables, Keyed.mapValues_eq_self_iff]
  simp only [map_eq_self_iff, mem_doubles_toJson]
  constructor
  · rintro h x ⟨table, htable, record, hrecord, field, hfield, hx⟩
    exact (Record.reread_eq_self_iff (hsorted table htable record hrecord)).1
      (h table htable record hrecord) field hfield x hx
  · intro h table htable record hrecord
    exact (Record.reread_eq_self_iff (hsorted table htable record hrecord)).2
      fun field hfield x hx => h x ⟨table, htable, record, hrecord, field, hfield, hx⟩

end Dataset

end RecordQuery
