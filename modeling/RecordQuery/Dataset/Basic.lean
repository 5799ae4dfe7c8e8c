/-
RecordQuery.Dataset.Basic — records in named tables.

A record has an id, a time of creation and user fields; rules see the user
fields alone. A dataset keeps the records of each table in the order in which
they were inserted, and the tables in the order of their names.

Main definitions:
* `Record`, `Record.view`, `Predicate.select`;
* `Dataset`, `Dataset.insert`, `Dataset.table?`, `Dataset.counts`;
* `Record.toJson`, `Dataset.toJson`.
-/
import RecordQuery.Predicate

namespace RecordQuery

/-- A stored record. The time of creation is in milliseconds since 1970. -/
structure Record where
  id : String
  created : Int64
  fields : Keyed Json
  deriving DecidableEq, Inhabited

/-- What rules see of a record: its user fields. -/
def Record.view (record : Record) : FieldView := record.fields.get?

/-- What rules see of a JSON value: the members of an object, nothing of anything else. -/
def Json.view (value : Json) : FieldView := fun name => value.member? name

/-- The records that a predicate lets through, in their order. -/
def Predicate.select (predicate : Predicate) (records : List Record) : List Record :=
  records.filter fun record => predicate.accepts record.view

/-- The tables of a data file. -/
structure Dataset where
  version : UInt32
  tables : Keyed (List Record)
  deriving DecidableEq

namespace Dataset

/-- The version of the file format. -/
def currentVersion : UInt32 := 1

/-- The dataset without tables. -/
def empty : Dataset := ⟨currentVersion, .empty⟩

instance : Inhabited Dataset := ⟨empty⟩

/-- No table has a record. -/
def isEmpty (dataset : Dataset) : Bool :=
  dataset.tables.entries.all fun table => table.2.isEmpty

/-- The records of a table, if there is such a table. -/
def table? (dataset : Dataset) (name : String) : Option (List Record) := dataset.tables.get? name

/-- The dataset with a record at the end of a table, which is created if needed. -/
def insert (dataset : Dataset) (table : String) (record : Record) : Dataset :=
  { dataset with
    tables := dataset.tables.insert table ((dataset.table? table).getD [] ++ [record]) }

theorem table?_insert (dataset : Dataset) (table other : String) (record : Record) :
    (dataset.insert table record).table? other =
      if other = table then some ((dataset.table? table).getD [] ++ [record])
      else dataset.table? other :=
  Keyed.get?_insert ..

/-- How many records each table has, in order of table names. -/
def counts (dataset : Dataset) : List (String × Nat) :=
  dataset.tables.entries.map fun table => (table.1, table.2.length)

end Dataset

/-! ## Text form -/

/-- A 64-bit integer as a whole number. -/
def Whole.ofInt64 (n : Int64) : Whole :=
  ⟨n.toInt, by have := Int64.le_toInt n; omega, by have := Int64.toInt_lt n; omega⟩

/-- A 32-bit count as a whole number. -/
def Whole.ofUInt32 (n : UInt32) : Whole :=
  ⟨n.toNat, by omega, by have := n.toNat_lt; omega⟩

/-- A record as an object: id and time of creation come before the user fields. -/
def Record.toJson (record : Record) : Json :=
  .object (("_id", .string record.id)
    :: ("_creationTime", .number (.whole (.ofInt64 record.created))) :: record.fields.entries)

/-- Records as a list. -/
def Record.listToJson (records : List Record) : Json := .array (records.map Record.toJson)

/-- A dataset as an object. -/
def Dataset.toJson (dataset : Dataset) : Json :=
  .object [("version", .number (.whole (.ofUInt32 dataset.version))),
    ("tables", .object (dataset.tables.entries.map fun table =>
      (table.1, Record.listToJson table.2)))]

end RecordQuery
