/-
RecordQuery.Json.Basic — JSON values.

A number is either a whole number between -2^63 and 2^64 - 1, which is kept
exactly, or a finite double. The members of an object are listed in order of
their keys; every function of this library that builds an object keeps that
order (`Json.ofMembers`).

Main definitions:
* `Whole`, `Number`, `Json`;
* decidable equality of values;
* `Json.member?`, `Json.kindName`.
-/
import RecordQuery.Double.Basic
import RecordQuery.Keyed

namespace RecordQuery

/-- A whole number that JSON text keeps exactly: from -2^63 to 2^64 - 1. -/
structure Whole where
  value : Int
  lower : -9223372036854775808 ≤ value
  upper : value ≤ 18446744073709551615
  deriving DecidableEq

/-- A JSON number. -/
inductive Number where
  | whole (value : Whole)
  | double (value : FiniteDouble)
  deriving DecidableEq

/-- A number as a double: whole numbers are rounded to the nearest. -/
def Number.toDouble : Number → Double
  | .whole n => Double.ofInt n.value
  | .double x => .finite x

/-- A JSON value. -/
inductive Json where
  | null
  | bool (value : Bool)
  | number (value : Number)
  | string (text : String)
  | array (items : List Json)
  | object (members : List (String × Json))
  deriving Inhabited

namespace Json

/-! ## Equality -/

mutual

/-- Equality of values is decided by comparing them part by part. -/
def decideEq : (x y : Json) → Decidable (x = y)
  | .null, .null => isTrue rfl
  | .bool a, .bool b => decidable_of_iff (a = b) (by simp)
  | .number a, .number b => decidable_of_iff (a = b) (by simp)
  | .string a, .string b => decidable_of_iff (a = b) (by simp)
  | .array a, .array b =>
    match decideEqItems a b with
    | isTrue h => isTrue (by rw [h])
    | isFalse h => isFalse (by simpa using h)
  | .object a, .object b =>
    match decideEqMembers a b with
    | isTrue h => isTrue (by rw [h])
    | isFalse h => isFalse (by simpa using h)
  | .null, .bool _ | .null, .number _ | .null, .string _ | .null, .array _ | .null, .object _
  | .bool _, .null | .bool _, .number _ | .bool _, .string _ | .bool _, .array _
  | .bool _, .object _
  | .number _, .null | .number _, .bool _ | .number _, .string _ | .number _, .array _
  | .number _, .object _
  | .string _, .null | .string _, .bool _ | .string _, .number _ | .string _, .array _
  | .string _, .object _
  | .array _, .null | .array _, .bool _ | .array _, .number _ | .array _, .string _
  | .array _, .object _
  | .object _, .null | .object _, .bool _ | .object _, .number _ | .object _, .string _
  | .object _, .array _ => isFalse (by simp)

/-- Equality of lists of values. -/
def decideEqItems : (xs ys : List Json) → Decidable (xs = ys)
  | [], [] => isTrue rfl
  | x :: xs, y :: ys =>
    match decideEq x y, decideEqItems xs ys with
    | isTrue h, isTrue h' => isTrue (by rw [h, h'])
    | isFalse h, _ => isFalse (by simp [h])
    | _, isFalse h => isFalse (by simp [h])
  | [], _ :: _ | _ :: _, [] => isFalse (by simp)

/-- Equality of lists of members. -/
def decideEqMembers : (xs ys : List (String × Json)) → Decidable (xs = ys)
  | [], [] => isTrue rfl
  | (k, x) :: xs, (l, y) :: ys =>
    match decEq k l, decideEq x y, decideEqMembers xs ys with
    | isTrue h, isTrue h', isTrue h'' => isTrue (by rw [h, h', h''])
    | isFalse h, _, _ => isFalse (by simp [h])
    | _, isFalse h, _ => isFalse (by simp [h])
    | _, _, isFalse h => isFalse (by simp [h])
  | [], _ :: _ | _ :: _, [] => isFalse (by simp)

end

instance : DecidableEq Json := decideEq

/-! ## Parts -/

/-- The object with the given members; of two with one key the later counts. -/
def ofMembers (members : List (String × Json)) : Json := .object (collectEntries members)

/-- The value under a key of an object. -/
def member? (key : String) : Json → Option Json
  | .object members => members.lookup key
  | _ => none

/-- The kind of a value, with its article, as messages name it. -/
def kindName : Json → String
  | .null => "null"
  | .bool _ => "a boolean"
  | .number _ => "a number"
  | .string _ => "a string"
  | .array _ => "an array"
  | .object _ => "an object"

/-- The text of a string value. -/
def text? : Json → Option String
  | .string text => some text
  | _ => none

end Json

end RecordQuery
