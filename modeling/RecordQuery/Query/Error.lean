/-
RecordQuery.Query.Error — why a query cannot be used.

A query and its catalog arrive as JSON texts. Either text may not be JSON, may
be JSON of the wrong shape, or, where only supported names are let through, a
tree may hold a name that is not supported.

Main definitions:
* `Place` — a place in a query text, `$.rules[2].field`;
* `QueryProblem`, `FieldsProblem`, `QueryError` and their messages.
-/
import RecordQuery.Json.Fault

namespace RecordQuery

/-- A place in a query: from the root down the numbered children, and then perhaps to a key. -/
structure Place where
  steps : List Nat
  key : Option String
  deriving DecidableEq, Inhabited

/-- The root of a query. -/
def Place.root : Place := ⟨[], none⟩

/-- A child of the node at a place. -/
def Place.child (place : Place) (index : Nat) : Place := ⟨place.steps ++ [index], none⟩

/-- A key of the object at a place. -/
def Place.at (place : Place) (key : String) : Place := ⟨place.steps, some key⟩

/-- A place as messages show it, from `$` on. -/
def Place.text (place : Place) : String :=
  let down := place.steps.foldl (fun sofar index => sofar ++ s!".rules[{index}]") "$"
  match place.key with
  | some key => down ++ "." ++ key
  | none => down

/-- What is wrong with a node of a query. -/
inductive QueryProblem where
  | notNode (kind : String)
  | notString (kind : String)
  | notArray
  | missingKey
  deriving DecidableEq

def QueryProblem.message : QueryProblem → String
  | .notNode kind => s!"expected a rule or group object, found {kind}"
  | .notString kind => s!"expected a string, found {kind}"
  | .notArray => "expected an array"
  | .missingKey => "missing required key"

/-- What is wrong with a list of field descriptors. -/
inductive FieldsProblem where
  | notArray (kind : String)
  | field (index : Nat) (cause : Json.Cause)
  deriving DecidableEq

def FieldsProblem.message : FieldsProblem → String
  | .notArray kind => s!"invalid fields at $: expected an array of fields, found {kind}"
  | .field index cause => s!"invalid fields at $[{index}]: " ++ cause.message

/-- Which of the two texts is meant. -/
inductive QueryInput where
  | query
  | fields
  deriving DecidableEq

def QueryInput.name : QueryInput → String
  | .query => "query"
  | .fields => "fields"

/-- Why a query cannot be used. -/
inductive QueryError where
  | invalidJson (input : QueryInput) (error : Json.ReadError)
  | invalidQuery (place : Place) (problem : QueryProblem)
  | invalidFields (problem : FieldsProblem)
  | unknownOperator (name : String)
  | unknownCombinator (name : String)
  deriving DecidableEq

def QueryError.message : QueryError → String
  | .invalidJson input error => s!"invalid {input.name} JSON: " ++ error.message
  | .invalidQuery place problem => s!"invalid query at {place.text}: " ++ problem.message
  | .invalidFields problem => problem.message
  | .unknownOperator name => "unknown operator: " ++ name
  | .unknownCombinator name => "unknown combinator: " ++ name

end RecordQuery
