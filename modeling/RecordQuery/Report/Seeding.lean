/-
RecordQuery.Report.Seeding — what was written as sample data.
-/
import RecordQuery.Dataset.Basic
import RecordQuery.Files.Path
import RecordQuery.Text.Columns

namespace RecordQuery

/-- A table and the number of its records as an object. -/
def countJson (count : String × Nat) : Json :=
  .object [("table", .string count.1), ("records", .ofNat count.2)]

/-- The tables of a new dataset and where it is, as an object. -/
def seedingJson (dataset : Dataset) (path : Path) : Json :=
  .object [("status", .string "success"), ("path", .string path.text),
    ("tables", .array (dataset.counts.map countJson))]

/-- The line of a table. -/
def countChars (count : String × Nat) : List Char :=
  ' ' :: ' ' :: (padTo 14 count.1.toList ++ ' ' :: (Nat.toDigits 10 count.2 ++ ['\n']))

/-- The tables of a new dataset and where it is, line by line. -/
def seedingTable (colors : Bool) (dataset : Dataset) (path : Path) : String :=
  String.ofList (paint colors .title "Seeded sample data".toList
    ++ "\n  File: ".toList ++ path.text.toList ++ '\n' :: dataset.counts.flatMap countChars)

end RecordQuery
