/-
RecordQuery.Dataset.Reader — from text to records and datasets.

A record is an object with an id, a time of creation and any other members,
which become its user fields. A dataset is an object with a version and tables,
or the list of these two; what is left out takes its default.

Main definitions:
* `Record.read`, `Dataset.read`;
* `Dataset.parse`, `Record.parseList`.
-/
import RecordQuery.Dataset.Basic
import RecordQuery.Json.Typed

namespace RecordQuery

open Json (Reader)

/-! ## Records -/

namespace Record

/-- The parts of a record that were met so far. -/
structure Draft where
  id : Option String := none
  created : Option Int := none
  fields : Keyed Json := .empty

/-- The record, if id and time of creation were met. -/
def Draft.finish (draft : Draft) : Except Json.Cause Record :=
  match draft.id, draft.created with
  | some id, some created => .ok ⟨id, .ofInt created, draft.fields⟩
  | none, _ => .error (.missingField "_id")
  | _, none => .error (.missingField "_creationTime")

/-- A time of creation. -/
def readTime : Reader Int :=
  Json.readInt (-9223372036854775808) 9223372036854775807 "i64"

/-- One member of a record. -/
def readMember (budget levels : Nat) (draft : Draft) (key : String) : Reader Draft := fun cs =>
  if key = "_id" then do
    let (id, rest) ← Json.readField Json.readString key draft.id cs
    .ok ({ draft with id := some id }, rest)
  else if key = "_creationTime" then do
    let (created, rest) ← Json.readField readTime key draft.created cs
    .ok ({ draft with created := some created }, rest)
  else do
    let (value, rest) ← Json.readValue budget levels (← Json.readColon cs)
    .ok ({ draft with fields := draft.fields.insert key value }, rest)

/-- A record. -/
def read (budget levels : Nat) : Reader Record := fun cs => do
  let (draft, rest) ←
    Json.readObject budget levels "struct Record" ({} : Draft) (readMember budget) cs
  match draft.finish with
  | .ok record => .ok (record, rest)
  | .error cause => .error (.last cause rest)

/-- The record that a text holds. -/
def parse (text : String) : Except Json.ReadError Record :=
  Json.readWhole (fun budget => read budget Json.maxLevels) text

/-- The records that a text lists. -/
def parseList (text : String) : Except Json.ReadError (List Record) :=
  Json.readWhole (fun budget => Json.readList budget Json.maxLevels (read budget)) text

end Record

/-! ## Datasets -/

namespace Dataset

/-- A version number. -/
def readVersion : Reader Int := Json.readInt 0 4294967295 "u32"

/-- Tables under their names; of two with one name the later counts. -/
def readTables (budget levels : Nat) : Reader (Keyed (List Record)) :=
  Json.readObject budget levels "a map" .empty fun levels tables name cs => do
    let (records, rest) ←
      Json.readList budget levels (Record.read budget) (← Json.readColon cs)
    .ok (tables.insert name records, rest)

/-- The parts of a dataset that were met so far. -/
structure Draft where
  version : Option Int := none
  tables : Option (Keyed (List Record)) := none

/-- The dataset, where defaults stand for what is missing. -/
def Draft.finish (draft : Draft) : Dataset :=
  ⟨(draft.version.map fun n => UInt32.ofInt n).getD currentVersion, draft.tables.getD .empty⟩

/-- One member of a dataset. -/
def readMember (budget levels : Nat) (draft : Draft) (key : String) : Reader Draft := fun cs =>
  if key = "version" then do
    let (version, rest) ← Json.readField readVersion key draft.version cs
    .ok ({ draft with version := some version }, rest)
  else if key = "tables" then do
    let (tables, rest) ← Json.readField (readTables budget levels) key draft.tables cs
    .ok ({ draft with tables := some tables }, rest)
  else do
    let (_, rest) ← Json.skipField budget cs
    .ok (draft, rest)

/-- The inside of a dataset that is written as an object. -/
def readMembers (budget levels : Nat) : Reader Dataset := fun cs => do
  let (draft, rest) ← Json.readMembers (readMember budget levels) budget true {} cs
  .ok (draft.finish, rest)

/-- The inside of a dataset that is written as a list. -/
def readItems (budget levels : Nat) : Reader Dataset := fun cs => do
  let (version, rest) ← Json.readNext true readVersion cs
  let (tables, rest) ← Json.readNext version.isNone (readTables budget levels) rest
  .ok (Draft.finish ⟨version, tables⟩, rest)

/-- A dataset. -/
def read (budget levels : Nat) : Reader Dataset :=
  Json.readFieldwise levels "struct Dataset" (readMembers budget) (readItems budget)

/-- The dataset that a text holds. -/
def parse (text : String) : Except Json.ReadError Dataset :=
  Json.readWhole (fun budget => read budget Json.maxLevels) text

end Dataset

end RecordQuery
