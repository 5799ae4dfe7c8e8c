/-
RecordQuery.Toml.Basic — values and tables of a TOML document.

A document is a table of named entries. Tables arise in several ways, and how a
table arose decides what may be added to it later: one that was only implied by
the header of a table inside it may still get a header of its own, and one that
dotted keys made may get more dotted keys. A table in braces is complete.

Main definitions:
* `Toml`, `Toml.Origin`, `Toml.Entries`;
* `Toml.Entries.within` — a change in the table at the end of a path;
* `Toml.Entries.assign`, `Toml.Entries.addHeader`, `Toml.Entries.addItemHeader`;
* `Toml.Entries.assignInline`.
-/
import RecordQuery.Double.Basic

namespace RecordQuery

/-- How a table came to be: by a header, by the header of a table in it, or by a dotted key. -/
inductive Toml.Origin where
  | header
  | implied
  | dotted
  deriving DecidableEq

/-- A value, a table with a header or without, a table in braces, or a list of tables. Dates and
times are kept as they are written. -/
inductive Toml where
  | text (value : String)
  | integer (value : Int)
  | float (value : Double)
  | boolean (value : Bool)
  | moment (written : String)
  | array (items : List Toml)
  | inline (origin : Toml.Origin) (entries : List (String × Toml))
  | table (origin : Toml.Origin) (entries : List (String × Toml))
  | tables (items : List (List (String × Toml)))

namespace Toml

/-- The entries of a table. A key occurs once. -/
abbrev Entries := List (String × Toml)

namespace Entries

/-- The value under a key. -/
def get? (entries : Entries) (key : String) : Option Toml := entries.lookup key

/-- The entries with a value under a key that is there already. -/
def replace (entries : Entries) (key : String) (value : Toml) : Entries :=
  entries.map fun entry => if entry.1 = key then (key, value) else entry

/-- The entries with a value under a new key; nothing if the key is there already. -/
def add? (entries : Entries) (key : String) (value : Toml) : Option Entries :=
  if (entries.get? key).isSome then none else some (entries ++ [(key, value)])

/-- A change in the table at the end of a path. Tables that are missing on the way are made.
Dotted keys do not reach into a table that has a header; a list of tables is entered at its last
table. The change is told how the table came to be. -/
def within (dotted : Bool) (change : Origin → Entries → Option Entries) :
    (path : List String) → Origin → Entries → Option Entries
  | [], origin, entries => change origin entries
  | key :: path, _, entries =>
    match entries.get? key with
    | none => do
      let origin := if dotted then .dotted else .implied
      let inner ← within dotted change path origin []
      some (entries ++ [(key, .table origin inner)])
    | some (.table origin inner) =>
      if dotted && origin = .header then none
      else do
        let inner ← within dotted change path origin inner
        some (entries.replace key (.table origin inner))
    | some (.tables items) => do
      let inner ← within dotted change path .header (items.getLastD [])
      some (entries.replace key (.tables (items.dropLast ++ [inner])))
    | some _ => none

/-- A value under a dotted key, in the table at the end of a header's path. The path of a dotted
key ends in a table that dotted keys made. -/
def assign (header path : List String) (key : String) (value : Toml) (entries : Entries) :
    Option Entries :=
  let put (origin : Origin) (entries : Entries) : Option Entries :=
    if path.isEmpty || origin = .dotted then entries.add? key value else none
  within false (within true put path) header .header entries

/-- A header for a table that is new or was only implied. -/
def addHeader (path : List String) (key : String) (entries : Entries) : Option Entries :=
  let put (_ : Origin) (entries : Entries) : Option Entries :=
    match entries.get? key with
    | none => some (entries ++ [(key, .table .header [])])
    | some (.table .implied inner) => some (entries.replace key (.table .header inner))
    | some _ => none
  within false put path .header entries

/-- A header for one more table in a list of tables. -/
def addItemHeader (path : List String) (key : String) (entries : Entries) : Option Entries :=
  let put (_ : Origin) (entries : Entries) : Option Entries :=
    match entries.get? key with
    | none => some (entries ++ [(key, .tables [[]])])
    | some (.tables items) => some (entries.replace key (.tables (items ++ [[]])))
    | some _ => none
  within false put path .header entries

/-- A value under a dotted key in braces. Only tables that dotted keys made are entered. -/
def assignInline (key : String) (value : Toml) : (path : List String) → Entries → Option Entries
  | [], entries => entries.add? key value
  | first :: path, entries =>
    match entries.get? first with
    | none => do
      let inner ← assignInline key value path []
      some (entries ++ [(first, .inline .dotted inner)])
    | some (.inline .dotted inner) => do
      let inner ← assignInline key value path inner
      some (entries.replace first (.inline .dotted inner))
    | some _ => none

end Entries

end Toml

end RecordQuery
