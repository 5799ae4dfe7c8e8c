/-
RecordQuery.Page — a table page by page.

A page is filled by reading records in table order, from the record behind the
cursor on, until it has the wanted number of matches, until the bound on
records read is met, or until the table ends. The cursor of the next page is
the id of the last record read, so a walk may go on inside a run of records
that do not match.

Main definitions:
* `PageRequest`, `Page`, `PageError`;
* `recordsAfter?` — the records behind a cursor;
* `recordsRead` — the records that are read for one page;
* `paginate`.
-/
import RecordQuery.Dataset.Basic

namespace RecordQuery

/-- What is asked of one page. -/
structure PageRequest where
  size : Nat
  cursor : Option String
  maxScan : Option Nat
  deriving DecidableEq, Inhabited

/-- Matching records in table order, and where to go on. -/
structure Page where
  records : List Record
  isDone : Bool
  next : Option String
  scanned : Nat
  deriving DecidableEq

/-- Why there is no page. -/
inductive PageError where
  | invalidCursor (cursor : String)
  deriving DecidableEq

def PageError.message : PageError → String
  | .invalidCursor cursor => "invalid cursor: " ++ cursor

/-- The records behind the first one with the given id, if there is one. -/
def recordsBehind? (id : String) : List Record → Option (List Record)
  | [] => none
  | record :: records => if record.id = id then some records else recordsBehind? id records

/-- The records behind a cursor; without cursor all of them. -/
def recordsAfter? (cursor : Option String) (records : List Record) : Option (List Record) :=
  match cursor with
  | none => some records
  | some id => recordsBehind? id records

/-- The records that are read while there is room for matches and the bound is not met. -/
def recordsRead (keep : Record → Bool) : (room : Nat) → (bound : Option Nat) →
    List Record → List Record
  | _, _, [] => []
  | 0, _, _ => []
  | _ + 1, some 0, _ => []
  | room + 1, bound, record :: records =>
    record :: recordsRead keep (if keep record then room else room + 1)
      (bound.map fun left => left - 1) records

/-- One page of the records that a filter keeps. -/
def paginate (keep : Record → Bool) (request : PageRequest) (records : List Record) :
    Except PageError Page :=
  match recordsAfter? request.cursor records with
  | none => .error (.invalidCursor (request.cursor.getD ""))
  | some remaining =>
    let read := recordsRead keep request.size request.maxScan remaining
    let isDone := remaining.length ≤ read.length
    let last := (read.getLast?.map Record.id).or request.cursor
    .ok ⟨read.filter keep, isDone, if isDone then none else last, read.length⟩

/-- A cursor or null. -/
def cursorJson (cursor : Option String) : Json := (cursor.map Json.string).getD .null

/-- A page as an object. -/
def Page.toJson (page : Page) : Json :=
  .object [("page", Record.listToJson page.records), ("isDone", .bool page.isDone),
    ("continueCursor", cursorJson page.next), ("scanned", .ofNat page.scanned)]

end RecordQuery
