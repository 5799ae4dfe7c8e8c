/-
RecordQuery.Catalog.Basic — what is known of the fields of a table.

A catalog lists field descriptors: a name, a kind that says how rule values are
read and compared, and what an editor shows. A field is looked up by its exact
name, the first of several counts, and a field that is not listed is text. For
a name that is not listed, the nearest listed name may be suggested.

Main definitions:
* `FieldKind`, `Field`, `Catalog`;
* `Catalog.find?`, `Catalog.kindOf`, `Catalog.suggest?`;
* `Catalog.toJson`.
-/
import RecordQuery.Json.Printer
import RecordQuery.Text.EditDistance

namespace RecordQuery

/-- How the values of a field are read and compared. -/
inductive FieldKind where
  | text
  | number
  | boolean
  | date
  deriving DecidableEq, Repr, Inhabited

namespace FieldKind

/-- The name of a kind. -/
def name : FieldKind → String
  | .text => "text"
  | .number => "number"
  | .boolean => "boolean"
  | .date => "date"

/-- The kind with a name; any other name means text. -/
def ofName (name : String) : FieldKind :=
  if name = "number" then .number
  else if name = "boolean" then .boolean
  else if name = "date" then .date
  else .text

/-- The kind that a JSON value names; what is no string means text. -/
def ofJson : Json → FieldKind
  | .string name => ofName name
  | _ => .text

theorem ofName_name (kind : FieldKind) : ofName kind.name = kind := by
  cases kind <;> decide

end FieldKind

/-- The descriptor of one field. -/
structure Field where
  name : String
  label : Option String
  kind : FieldKind
  inputHint : Option String
  deriving DecidableEq, Inhabited

/-- The heading of a field: its label, or its name. -/
def Field.heading (field : Field) : String := field.label.getD field.name

/-- The descriptors of a table, in the order in which they are shown. -/
structure Catalog where
  fields : List Field
  deriving DecidableEq, Inhabited

namespace Catalog

/-- The catalog without fields. -/
def empty : Catalog := ⟨[]⟩

/-- The first descriptor with a name. -/
def find? (catalog : Catalog) (name : String) : Option Field :=
  catalog.fields.find? fun field => field.name = name

/-- The kind of a field; text if it is not listed. -/
def kindOf (catalog : Catalog) (name : String) : FieldKind :=
  match catalog.find? name with
  | some field => field.kind
  | none => .text

/-! ## Suggestions -/

/-- The largest distance at which a name is suggested. -/
def maxSuggestionDistance : Nat := 3

/-- The first name at the least distance, with that distance. -/
def nearest? (target : List Char) : List String → Option (String × Nat)
  | [] => none
  | name :: names =>
    let distance := editDistance target name.toList
    match nearest? target names with
    | some (other, less) => if less < distance then some (other, less) else some (name, distance)
    | none => some (name, distance)

/-- The listed name nearest to a name that is not listed, unless it is too far. -/
def suggest? (catalog : Catalog) (name : String) : Option String :=
  match nearest? name.toList (catalog.fields.map (·.name)) with
  | some (nearest, distance) =>
    if 0 < distance ∧ distance ≤ maxSuggestionDistance then some nearest else none
  | none => none

/-! ## Text form -/

/-- The members that an optional text adds to an object. -/
def optionalMember (key : String) : Option String → List (String × Json)
  | some text => [(key, .string text)]
  | none => []

end Catalog

/-- A descriptor as an object; what is not set is left out. -/
def Field.toJson (field : Field) : Json :=
  .object (("name", .string field.name) :: (Catalog.optionalMember "label" field.label
    ++ ("type", .string field.kind.name) :: Catalog.optionalMember "inputType" field.inputHint))

/-- A catalog as a list of objects. -/
def Catalog.toJson (catalog : Catalog) : Json := .array (catalog.fields.map Field.toJson)

end RecordQuery
