/-
RecordQuery.Request — filter arguments and the pages they select.

An editor sends a query and a catalog as two JSON texts. `Dataset.page` reads
both, compiles the query, looks the table up and takes one page; `fetch?` takes
one page too, or follows the cursors from page to page. Where two records share
an id a walk may return to an earlier place and go on for ever: then no number of
pages suffices.

Main definitions:
* `FilterArguments`, `FilterArguments.ofQuery`, `FilterArguments.parse`;
* `RequestError`, `Dataset.page`;
* `Fetched`, `fetchPages?`, `Dataset.fetch?`.
-/
import RecordQuery.Page
import RecordQuery.Query.Reader
import RecordQuery.Catalog.Reader
import RecordQuery.Schema

namespace RecordQuery

open Json (Reader)

/-- A query and a catalog, each as JSON text. -/
structure FilterArguments where
  query : String
  fields : String
  deriving DecidableEq, Inhabited

namespace FilterArguments

/-- The texts of a tree and a catalog. -/
def ofQuery (query : Query) (catalog : Catalog) : FilterArguments :=
  ⟨query.toJson.compact, catalog.toJson.compact⟩

/-- The text of the query without rules, which keeps every record. -/
def keepAll : String := (Query.group .and []).toJson.compact

/-- The arguments for a table. Without query every record is kept; without catalog the built-in
one counts, and a table that is not built in has none. -/
def forTable (table : String) (query fields : Option String) : FilterArguments :=
  ⟨query.getD keepAll,
    fields.getD ((Schema.catalogOf? table).getD ⟨[]⟩).toJson.compact⟩

/-- Filter arguments as an object. -/
def toJson (arguments : FilterArguments) : Json :=
  .object [("serializedPredicate", .string arguments.query),
    ("serializedFields", .string arguments.fields)]

/-! ### Reading -/

/-- How the arguments are named where something else was found. -/
def wanted : String := "struct FilterArgs"

/-- How a list that is too short is told so. -/
def lengthWanted : String := "struct FilterArgs with 2 elements"

/-- The texts that were met so far. -/
structure Draft where
  query : Option String := none
  fields : Option String := none

/-- The arguments, if both texts were met. -/
def Draft.finish (draft : Draft) : Except Json.Cause FilterArguments :=
  match draft.query, draft.fields with
  | some query, some fields => .ok ⟨query, fields⟩
  | none, _ => .error (.missingField "serializedPredicate")
  | _, none => .error (.missingField "serializedFields")

/-- One member of the arguments. -/
def readMember (budget : Nat) (draft : Draft) (key : String) : Reader Draft := fun cs =>
  if key = "serializedPredicate" then do
    let (query, rest) ← Json.readField Json.readString key draft.query cs
    .ok ({ draft with query := some query }, rest)
  else if key = "serializedFields" then do
    let (fields, rest) ← Json.readField Json.readString key draft.fields cs
    .ok ({ draft with fields := some fields }, rest)
  else do
    let (_, rest) ← Json.skipField budget cs
    .ok (draft, rest)

/-- The inside of arguments that are written as an object. -/
def readMembers (budget : Nat) : Reader FilterArguments := fun cs => do
  let (draft, rest) ← Json.readMembers (readMember budget) budget true {} cs
  match draft.finish with
  | .ok arguments => .ok (arguments, rest)
  | .error cause => .error (.last cause rest)

/-- The inside of arguments that are written as a list. -/
def readItems : Reader FilterArguments := fun cs => do
  match ← Json.readNext true Json.readString cs with
  | (none, rest) => .error (Json.shortFault 0 lengthWanted rest)
  | (some query, rest) =>
    match ← Json.readNext false Json.readString rest with
    | (none, rest) => .error (Json.shortFault 1 lengthWanted rest)
    | (some fields, rest) => .ok (⟨query, fields⟩, rest)

/-- The arguments that a text holds. -/
def parse (text : String) : Except Json.ReadError FilterArguments :=
  Json.readWhole (fun budget => Json.readFieldwise Json.maxLevels wanted
    (fun _ => readMembers budget) (fun _ => readItems)) text

end FilterArguments

/-! ## Pages -/

/-- Why a request has no answer. -/
inductive RequestError where
  | query (error : QueryError)
  | unknownTable (table : String)
  | page (error : PageError)
  deriving DecidableEq

def RequestError.message : RequestError → String
  | .query error => error.message
  | .unknownTable table => "unknown table: " ++ table
  | .page error => error.message

/-- The compiled filter of two texts: the query is read before the catalog. -/
def FilterArguments.compile (arguments : FilterArguments) (strict : Bool) :
    Except QueryError Predicate := do
  let query ← Query.parse arguments.query
  let catalog ← Catalog.parse arguments.fields
  query.compileWith catalog strict

namespace Dataset

/-- The records of a table. A table that is not there is empty in a dataset without tables. -/
def recordsOf (dataset : Dataset) (table : String) : Except RequestError (List Record) :=
  match dataset.table? table with
  | some records => .ok records
  | none => if dataset.tables.entries.isEmpty then .ok [] else .error (.unknownTable table)

/-- One page of a table. -/
def page (dataset : Dataset) (table : String) (arguments : FilterArguments)
    (request : PageRequest) (strict : Bool) : Except RequestError Page := do
  let predicate ← (arguments.compile strict).mapError .query
  let records ← dataset.recordsOf table
  (paginate (fun record => predicate.accepts record.view) request records).mapError .page

end Dataset

/-! ## All pages -/

/-- The records of one page or of several, and where they end. -/
structure Fetched where
  records : List Record
  isDone : Bool
  next : Option String
  deriving DecidableEq

/-- The records of the pages from a cursor on, up to the page that is the last. Nothing if `limit`
pages do not suffice. -/
def fetchPages? {ε : Type} (fetch : Option String → Except ε Page) :
    (limit : Nat) → (cursor : Option String) → Option (Except ε Fetched)
  | 0, _ => none
  | limit + 1, cursor =>
    match fetch cursor with
    | .error e => some (.error e)
    | .ok page =>
      if page.isDone then some (.ok ⟨page.records, true, page.next⟩)
      else
        (fetchPages? fetch limit page.next).map fun rest =>
          rest.map fun more => { more with records := page.records ++ more.records }

/-- A page is fetched once for every cursor that occurs, if the walk ends at all. -/
def Dataset.pageLimit (dataset : Dataset) (table : String) : Nat :=
  ((dataset.table? table).getD []).length + 2

/-- One page, or with `all` this and all further pages. A page of size zero leads nowhere and is
the only one. Nothing if the pages never end. -/
def Dataset.fetch? (dataset : Dataset) (table : String) (arguments : FilterArguments)
    (size : Nat) (cursor : Option String) (all strict : Bool) :
    Option (Except RequestError Fetched) :=
  let fetch (cursor : Option String) := dataset.page table arguments ⟨size, cursor, none⟩ strict
  if all && size != 0 then fetchPages? fetch (dataset.pageLimit table) cursor
  else some ((fetch cursor).map fun page => ⟨page.records, page.isDone, page.next⟩)

end RecordQuery
