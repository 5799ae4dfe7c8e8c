/-
RecordQuery.Literal — rule values as they are compared.

The value of a rule is turned into a `Literal` once, by the kind of its field:
for a number field a number, read leniently from text; for a boolean field
whether it says `true`; for text and date fields the value as it is. A record
value is then compared with the literal if both are of one kind, and searched
by its display text.

Main definitions:
* `Literal`, `Literal.ofJson`, `Literal.coerce`;
* `Json.compareWith?`, `Json.isMissing`, `Json.displayChars`.
-/
import RecordQuery.Catalog.Basic
import RecordQuery.Double.Numeral

namespace RecordQuery

/-- A rule value, ready for comparison. -/
inductive Literal where
  | null
  | bool (value : Bool)
  | number (value : Double)
  | text (value : String)
  | json (value : Json)
  deriving DecidableEq, Inhabited

/-! ## Display text -/

namespace Json

mutual

/-- The text by which a value is searched: numbers in their plain form, strings as they are, the
items of a list with commas between them, and one word for every object. -/
def displayChars : Json → List Char
  | .null => "null".toList
  | .bool true => "true".toList
  | .bool false => "false".toList
  | .number n => n.toDouble.text.toList
  | .string text => text.toList
  | .array [] => []
  | .array (item :: items) => displayItem item ++ displayItems items
  | .object _ => "[object Object]".toList

/-- The text of an item of a list: nothing for null. -/
def displayItem : Json → List Char
  | .null => []
  | item => item.displayChars

/-- The texts of further items of a list, each with its comma. -/
def displayItems : List Json → List Char
  | [] => []
  | item :: items => ',' :: (displayItem item ++ displayItems items)

end

/-- The text by which a value is searched. -/
def display (value : Json) : String := String.ofList value.displayChars

/-- A record value that counts as missing, like a field that is absent. -/
def isMissing : Json → Bool
  | .null => true
  | .string text => text.isEmpty
  | _ => false

end Json

namespace Literal

/-- A value as it is. -/
def ofJson : Json → Literal
  | .null => .null
  | .bool value => .bool value
  | .number n => .number n.toDouble
  | .string s => .text s
  | value => .json value

/-- The number that a value names: no number unless it is a number or text that starts with one. -/
def numberOf : Json → Double
  | .number n => n.toDouble
  | .string s => .ofText s
  | _ => .nan

/-- The value says `true`, as a boolean or as text. -/
def truthOf : Json → Bool
  | .bool value => value
  | .string s => s = "true"
  | _ => false

/-- A rule value as the kind of its field has it. -/
def coerce (kind : FieldKind) (value : Json) : Literal :=
  match kind with
  | .number => .number (numberOf value)
  | .boolean => .bool (truthOf value)
  | .text | .date => ofJson value

/-- The literal stands for no value. -/
def isAbsent : Literal → Bool
  | .null => true
  | .text s => s.isEmpty
  | _ => false

/-- The text that is searched for. -/
def displayChars : Literal → List Char
  | .null => "null".toList
  | .bool true => "true".toList
  | .bool false => "false".toList
  | .number x => x.text.toList
  | .text s => s.toList
  | .json value => value.displayChars

/-- The text that is searched for. -/
def display (literal : Literal) : String := String.ofList literal.displayChars

end Literal

/-! ## Comparison -/

/-- Order of texts by code points. -/
def compareText (s t : String) : Ordering := if s < t then .lt else if s = t then .eq else .gt

/-- Order of truth values: false comes first. -/
def compareBool : Bool → Bool → Ordering
  | false, true => .lt
  | true, false => .gt
  | _, _ => .eq

/-- How a record value stands to a literal. Only values of one kind are ordered. -/
def Json.compareWith? : Json → Literal → Option Ordering
  | .number n, .number x => n.toDouble.compare? x
  | .string s, .text t => some (compareText s t)
  | .bool a, .bool b => some (compareBool a b)
  | _, _ => none

end RecordQuery
