/-
RecordQuery.Toml.Document — from text to the entries of a document.

A document is read line by line into statements: a header of a table, a header
of a table in a list, or a key with a value. The statements then build the
table of the whole document.

Main definitions:
* `Statement`, `readStatements`;
* `Draft.extend`, `Entries.ofStatements?`;
* `Toml.parse?`.
-/
import RecordQuery.Toml.Reader

namespace RecordQuery.Toml

/-- What one line of a document says. -/
inductive Statement where
  | header (path : List String) (key : String)
  | itemHeader (path : List String) (key : String)
  | assign (path : List String) (key : String) (value : Toml)

/-! ## Reading -/

/-- A header after its opening bracket, up to the end of its line. -/
def readHeader : Reader Statement
  | '[' :: cs => do
    let ((path, key), rest) ← readKey (cs.length + 1) cs
    let rest ← skipLineEnd (← skipChar ']' (← skipChar ']' rest))
    some (.itemHeader path key, rest)
  | cs => do
    let ((path, key), rest) ← readKey (cs.length + 1) cs
    let rest ← skipLineEnd (← skipChar ']' rest)
    some (.header path key, rest)

/-- A key and a value, up to the end of the line. -/
def readAssignment : Reader Statement := fun cs => do
  let ((path, key), rest) ← readKey (cs.length + 1) cs
  let (value, rest) ← readValue (levelLimit - 1) (skipBlanks (← skipChar '=' rest))
  some (.assign path key value, ← skipLineEnd rest)

/-- The statements of a document. -/
def readStatements : (budget : Nat) → List Char → Option (List Statement)
  | 0, _ => none
  | budget + 1, cs =>
    match skipBlanks cs with
    | [] => some []
    | '#' :: rest => (skipLineEnd ('#' :: rest)).bind (readStatements budget)
    | '\n' :: rest => readStatements budget rest
    | '\r' :: rest => (skipNewline ('\r' :: rest)).bind (readStatements budget)
    | '[' :: rest => do
      let (statement, rest) ← readHeader rest
      some (statement :: (← readStatements budget rest))
    | cs => do
      let (statement, rest) ← readAssignment cs
      some (statement :: (← readStatements budget rest))

/-! ## Building -/

/-- The path of the header that the next keys belong to, and the entries so far. -/
abbrev Draft := List String × Entries

/-- A draft with one more statement. -/
def Draft.extend (draft : Draft) : Statement → Option Draft
  | .header path key => (draft.2.addHeader path key).map fun entries => (path ++ [key], entries)
  | .itemHeader path key =>
    (draft.2.addItemHeader path key).map fun entries => (path ++ [key], entries)
  | .assign path key value =>
    (draft.2.assign draft.1 path key value).map fun entries => (draft.1, entries)

/-- The entries that statements build, if none contradicts an earlier one. -/
def Entries.ofStatements? (statements : List Statement) : Option Entries :=
  (statements.foldlM Draft.extend ([], [])).map (·.2)

/-- The entries of a document. A byte order mark in front is skipped. -/
def parse? (text : String) : Option Entries :=
  let cs := match text.toList with
    | '\uFEFF' :: cs => cs
    | cs => cs
  (readStatements (cs.length + 1) cs).bind Entries.ofStatements?

end RecordQuery.Toml
