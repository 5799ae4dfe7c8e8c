/-
RecordQuery.Catalog.Reader — from JSON to catalogs.

A catalog can be read in two ways: from the value that a text holds
(`Catalog.parse`), or straight from the text (`Catalog.readText`). Both want a
list of descriptors, each an object or the list of its fields in order, with at
least a name; a kind may be any value, and null stands for an absent label or
input hint.
-/
import RecordQuery.Catalog.Basic
import RecordQuery.Query.Error
import RecordQuery.Json.Typed

namespace RecordQuery

open Json (Cause Found Reader)

/-- How a descriptor is named where something else was found. -/
def fieldWanted : String := "struct FieldDescriptor"

/-- How a list that is too short to be a descriptor is told so. -/
def fieldLengthWanted : String := "struct FieldDescriptor with 4 elements"

/-! ## From values -/

namespace Field

/-- A string. -/
def textOf : Json → Except Cause String
  | .string text => .ok text
  | value => .error (.invalidType (.ofJson value) "a string")

/-- A string or null. -/
def optionalTextOf : Json → Except Cause (Option String)
  | .null => .ok none
  | value => (textOf value).map some

/-- The fields of a descriptor that were met so far. -/
structure Draft where
  name : Option String := none
  label : Option (Option String) := none
  kind : Option FieldKind := none
  inputHint : Option (Option String) := none

/-- The descriptor, if it has a name. -/
def Draft.finish (draft : Draft) : Except Cause Field :=
  match draft.name with
  | some name =>
    .ok ⟨name, draft.label.getD none, draft.kind.getD .text, draft.inputHint.getD none⟩
  | none => .error (.missingField "name")

/-- Takes one member of an object into a draft. -/
def Draft.take (draft : Draft) (key : String) (value : Json) : Except Cause Draft :=
  if key = "name" then (textOf value).map fun name => { draft with name := some name }
  else if key = "label" then
    (optionalTextOf value).map fun label => { draft with label := some label }
  else if key = "type" then .ok { draft with kind := some (.ofJson value) }
  else if key = "inputType" then
    (optionalTextOf value).map fun hint => { draft with inputHint := some hint }
  else .ok draft

/-- A descriptor from the list of its fields: all but the name may be left out at the end. -/
def ofItems : List Json → Except Cause Field
  | [] => .error (.invalidLength 0 fieldLengthWanted)
  | [name] => return ⟨← textOf name, none, .text, none⟩
  | [name, label] => return ⟨← textOf name, ← optionalTextOf label, .text, none⟩
  | [name, label, kind] => return ⟨← textOf name, ← optionalTextOf label, .ofJson kind, none⟩
  | name :: label :: kind :: hint :: more => do
    let field : Field :=
      ⟨← textOf name, ← optionalTextOf label, .ofJson kind, ← optionalTextOf hint⟩
    if more.isEmpty then .ok field
    else .error (.invalidLength (more.length + 4) "fewer elements in array")

/-- The descriptor that a value holds. -/
def ofJson : Json → Except Cause Field
  | .object members => do
    (← members.foldlM (fun draft member => draft.take member.1 member.2) ({} : Draft)).finish
  | .array items => ofItems items
  | value => .error (.invalidType (.ofJson value) fieldWanted)

end Field

namespace Catalog

/-- The descriptors of a list, the first of which has the given number. -/
def fieldsOf (index : Nat) : List Json → Except QueryError (List Field)
  | [] => .ok []
  | item :: items =>
    match Field.ofJson item with
    | .error cause => .error (.invalidFields (.field index cause))
    | .ok field => (fieldsOf (index + 1) items).map (field :: ·)

/-- The catalog that a value holds. -/
def ofJson : Json → Except QueryError Catalog
  | .array items => (fieldsOf 0 items).map Catalog.mk
  | value => .error (.invalidFields (.notArray value.kindName))

/-- The catalog that a text holds, which is read as a value first. -/
def parse (text : String) : Except QueryError Catalog :=
  match Json.read text with
  | .error e => .error (.invalidJson .fields e)
  | .ok value => ofJson value

end Catalog

/-! ## Straight from text -/

namespace Field

/-- One member of a descriptor. -/
def readMember (budget levels : Nat) (draft : Draft) (key : String) : Reader Draft := fun cs =>
  if key = "name" then do
    let (name, rest) ← Json.readField Json.readString key draft.name cs
    .ok ({ draft with name := some name }, rest)
  else if key = "label" then do
    let (label, rest) ← Json.readField (Json.readOptional Json.readString) key draft.label cs
    .ok ({ draft with label := some label }, rest)
  else if key = "type" then do
    let (kind, rest) ← Json.readField (Json.readValue budget levels) key
      (draft.kind.map fun _ => Json.null) cs
    .ok ({ draft with kind := some (.ofJson kind) }, rest)
  else if key = "inputType" then do
    let (hint, rest) ← Json.readField (Json.readOptional Json.readString) key draft.inputHint cs
    .ok ({ draft with inputHint := some hint }, rest)
  else do
    let (_, rest) ← Json.skipField budget cs
    .ok (draft, rest)

/-- The inside of a descriptor that is written as an object. -/
def readMembers (budget levels : Nat) : Reader Field := fun cs => do
  let (draft, rest) ← Json.readMembers (readMember budget levels) budget true {} cs
  match draft.finish with
  | .ok field => .ok (field, rest)
  | .error cause => .error (.last cause rest)

/-- The inside of a descriptor that is written as a list. -/
def readItems (budget levels : Nat) : Reader Field := fun cs => do
  match ← Json.readNext true Json.readString cs with
  | (none, rest) => .error (Json.shortFault 0 fieldLengthWanted rest)
  | (some name, rest) =>
    let (label, rest) ← Json.readNext false (Json.readOptional Json.readString) rest
    let (kind, rest) ← Json.readNext false (Json.readValue budget levels) rest
    let (hint, rest) ← Json.readNext false (Json.readOptional Json.readString) rest
    .ok (⟨name, label.getD none, (kind.map FieldKind.ofJson).getD .text, hint.getD none⟩, rest)

/-- A descriptor. -/
def read (budget levels : Nat) : Reader Field :=
  Json.readFieldwise levels fieldWanted (readMembers budget) (readItems budget)

end Field

/-- The catalog that a text holds, read without building a value first. -/
def Catalog.readText (text : String) : Except Json.ReadError Catalog :=
  Json.readWhole (fun budget cs => do
    let (fields, rest) ← Json.readList budget Json.maxLevels (Field.read budget) cs
    .ok (⟨fields⟩, rest)) text

end RecordQuery
