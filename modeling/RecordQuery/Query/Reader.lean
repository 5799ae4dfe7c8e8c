/-
RecordQuery.Query.Reader — from JSON to query trees.

An object with the key `rules` is a group; any other object is a rule. A group
without combinator combines by `and`, a rule without value compares with null,
and all other keys are passed over. Nothing else is taken: the first place that
breaks these rules, in the order in which the text is read, is reported.

Main definitions:
* `Query.ofJson`, `Query.parse`.
-/
import RecordQuery.Query.Basic
import RecordQuery.Query.Error
import RecordQuery.Json.Reader

namespace RecordQuery.Query

/-- The string under a key that an object must have. -/
def requiredText (place : Place) (key : String) (members : List (String × Json)) :
    Except QueryError String :=
  match members.lookup key with
  | some (.string text) => .ok text
  | some value => .error (.invalidQuery (place.at key) (.notString value.kindName))
  | none => .error (.invalidQuery (place.at key) .missingKey)

/-- The combinator of a group. -/
def readCombinator (place : Place) (members : List (String × Json)) :
    Except QueryError Combinator :=
  match members.lookup "combinator" with
  | none => .ok .and
  | some (.string name) => .ok (.ofName name)
  | some value => .error (.invalidQuery (place.at "combinator") (.notString value.kindName))

/-- A rule: the field is looked at before the operator. -/
def readRule (place : Place) (members : List (String × Json)) : Except QueryError Rule := do
  let field ← requiredText place "field" members
  let operator ← requiredText place "operator" members
  .ok ⟨field, .ofName operator, (members.lookup "value").getD .null⟩

mutual

/-- The tree of a value that stands at a place. -/
def ofJsonAt (place : Place) : Json → Except QueryError Query
  | .object members =>
    if (members.lookup "rules").isSome then
      match readCombinator place members with
      | .error e => .error e
      | .ok combinator => (childrenIn place members).map (.group combinator)
    else (readRule place members).map .rule
  | value => .error (.invalidQuery place (.notNode value.kindName))

/-- The children of a group, from the members that hold them under `rules`. -/
def childrenIn (place : Place) : List (String × Json) → Except QueryError (List Query)
  | [] => .error (.invalidQuery (place.at "rules") .notArray)
  | (key, .array items) :: members =>
    if key = "rules" then childrenOf place 0 items else childrenIn place members
  | (key, _) :: members =>
    if key = "rules" then .error (.invalidQuery (place.at "rules") .notArray)
    else childrenIn place members

/-- The trees of a list of values, the first of which is the child with the given number. -/
def childrenOf (place : Place) (index : Nat) : List Json → Except QueryError (List Query)
  | [] => .ok []
  | item :: items =>
    match ofJsonAt (place.child index) item with
    | .error e => .error e
    | .ok child => (childrenOf place (index + 1) items).map (child :: ·)

end

/-- The tree of a JSON value. -/
def ofJson (value : Json) : Except QueryError Query := ofJsonAt .root value

/-- The tree that a text holds. -/
def parse (text : String) : Except QueryError Query :=
  match Json.read text with
  | .error e => .error (.invalidJson .query e)
  | .ok value => ofJson value

end RecordQuery.Query
