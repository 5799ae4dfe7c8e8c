/-
RecordQuery.Report.Records — records as an aligned table.

A table has a header line and a line for each record. The first column shows
the start of the id; the others are the fields of the catalog, or, without
catalog, every key that occurs. A column is as wide as its longest cell, up to
a limit; trailing blanks are cut from each line. Below a page stands how many
records it shows and how to go on.

Main definitions:
* `cellChars`, `Column`, `columnsOf`, `columnWidth`;
* `recordsTable`, `pageFooter`, `recordsJson`.
-/
import RecordQuery.Page
import RecordQuery.Text.Columns
import RecordQuery.Text.Blank

namespace RecordQuery

/-- The text of a cell: strings as they are, nothing for what is missing or null. -/
def cellChars : Option Json → List Char
  | none => []
  | some .null => []
  | some (.string text) => text.toList
  | some value => Json.chars .compact 0 value

/-- A cell with its colour: truth values are green and red. -/
def paintedCell (colors : Bool) (value : Option Json) : List Char :=
  match value with
  | some (.bool true) => paint colors .success (cellChars value)
  | some (.bool false) => paint colors .failure (cellChars value)
  | _ => cellChars value

/-- The start of an id that a table shows. -/
def shortId (id : String) : List Char := id.toList.take 8

/-- A column: the key of the records and its heading. -/
structure Column where
  key : String
  heading : String
  deriving DecidableEq

/-- The keys of records, each where it is first seen. -/
def keysSeen (records : List Record) : List String :=
  (records.flatMap fun record => record.fields.keys).foldl
    (fun seen key => if key ∈ seen then seen else seen ++ [key]) []

/-- The columns of a table: those of the catalog, or all keys if it has none. -/
def columnsOf (catalog : Catalog) (records : List Record) : List Column :=
  if catalog.fields.isEmpty then (keysSeen records).map fun key => ⟨key, key⟩
  else catalog.fields.map fun field => ⟨field.name, field.heading⟩

/-- The widest that a column may be. -/
def maxColumnWidth : Nat := 28

/-- The cell of a record in a column. -/
def Column.cell (column : Column) (record : Record) : Option Json := record.fields.get? column.key

/-- The width of a column: the length of its longest text, up to the limit. -/
def columnWidth (records : List Record) (column : Column) : Nat :=
  min maxColumnWidth
    ((records.map fun record => (cellChars (column.cell record)).length).foldl max
      column.heading.toList.length)

/-- A line without the blanks at its end, and a line feed. -/
def tableLine (line : List Char) : List Char := trimEnd line ++ ['\n']

/-- The header line before it is trimmed. -/
def headerChars (columns : List (Column × Nat)) : List Char :=
  padTo 8 "ID".toList ++ columns.flatMap fun column =>
    ' ' :: padTo column.2 (clip column.2 column.1.heading.toList)

/-- A cell in a column of some width. A cell that is cut has no colour. -/
def columnCell (colors : Bool) (width : Nat) (value : Option Json) : List Char :=
  let whole := cellChars value
  let shown := clip width whole
  let painted := if shown.length < whole.length then shown else paintedCell colors value
  painted ++ filler shown.length width

/-- The line of a record before it is trimmed. -/
def recordChars (colors : Bool) (columns : List (Column × Nat)) (record : Record) : List Char :=
  padTo 8 (shortId record.id) ++ columns.flatMap fun column =>
    ' ' :: columnCell colors column.2 (column.1.cell record)

/-- The characters of a table of records. -/
def recordsTableChars (colors : Bool) (catalog : Catalog) (records : List Record) : List Char :=
  if records.isEmpty then "No matching records.\n".toList
  else
    let columns := (columnsOf catalog records).map fun column =>
      (column, columnWidth records column)
    paint colors .faint (trimEnd (headerChars columns)) ++ '\n' ::
      records.flatMap fun record => tableLine (recordChars colors columns record)

/-- A table of records. -/
def recordsTable (colors : Bool) (catalog : Catalog) (records : List Record) : String :=
  String.ofList (recordsTableChars colors catalog records)

/-- The line under a table: how many records it shows, and how to go on if there are more. -/
def pageFooterChars (colors : Bool) (shown : Nat) (isDone : Bool) (next : Option String) :
    List Char :=
  let count := Nat.toDigits 10 shown ++ ' ' ::
    (if shown = 1 then "record".toList else "records".toList)
  let hint (cursor : String) := "more available, continue with --cursor ".toList ++ cursor.toList
  match isDone, next with
  | false, some cursor =>
    '\n' :: (count ++ ';' :: ' ' :: (paint colors .faint (hint cursor) ++ ['\n']))
  | _, _ => '\n' :: (count ++ ['\n'])

/-- The line under a table. -/
def pageFooter (colors : Bool) (shown : Nat) (isDone : Bool) (next : Option String) : String :=
  String.ofList (pageFooterChars colors shown isDone next)

/-- The records of a table as an object. -/
def recordsJson (table : String) (records : List Record) (isDone : Bool) (next : Option String) :
    Json :=
  .object [("table", .string table), ("page", Record.listToJson records),
    ("isDone", .bool isDone), ("continueCursor", cursorJson next)]

end RecordQuery
