/-
RecordQuery.Json.Printer — from JSON values to text.

One printer serves two layouts: compact, with nothing between the tokens, and
pretty, with one entry a line and two spaces a level. Members are written in
the order in which the object lists them, characters beyond ASCII as they are.

Main definitions:
* `Layout`, `Layout.compact`, `Layout.pretty`;
* `Json.chars`, `Json.compact`, `Json.pretty`.
-/
import RecordQuery.Json.Fault

namespace RecordQuery

/-- What stands between the tokens of a JSON text. -/
structure Layout where
  /-- In front of an entry or a closing bracket at the given depth. -/
  lineBreak : Nat → List Char
  /-- Between the colon and the value. -/
  afterColon : List Char

/-- Nothing between the tokens. -/
def Layout.compact : Layout := ⟨fun _ => [], []⟩

/-- An entry a line, two spaces a level. -/
def Layout.pretty : Layout := ⟨fun depth => '\n' :: List.replicate (2 * depth) ' ', [' ']⟩

namespace Json

/-- A hexadecimal digit in lower case. -/
def hexDigit (n : Nat) : Char :=
  if n < 10 then Char.ofNat ('0'.toNat + n) else Char.ofNat ('a'.toNat + (n - 10))

/-- A character as it stands in a string. -/
def escapeChar (c : Char) : List Char :=
  if c = '"' then ['\\', '"']
  else if c = '\\' then ['\\', '\\']
  else if c = '\x08' then ['\\', 'b']
  else if c = '\x0c' then ['\\', 'f']
  else if c = '\n' then ['\\', 'n']
  else if c = '\r' then ['\\', 'r']
  else if c = '\t' then ['\\', 't']
  else if c.toNat < 0x20 then
    ['\\', 'u', '0', '0', hexDigit (c.toNat / 16), hexDigit (c.toNat % 16)]
  else [c]

/-- A string between its quotes. -/
def stringChars (text : String) : List Char :=
  '"' :: (text.toList.flatMap escapeChar ++ ['"'])

/-- The digits of a number; a double can be told from a whole number. -/
def numberChars : Number → List Char
  | .whole n => n.chars
  | .double x => x.jsonChars

mutual

/-- The text of a value that stands at the given depth. -/
def chars (layout : Layout) (depth : Nat) : Json → List Char
  | .null => ['n', 'u', 'l', 'l']
  | .bool true => ['t', 'r', 'u', 'e']
  | .bool false => ['f', 'a', 'l', 's', 'e']
  | .number n => numberChars n
  | .string text => stringChars text
  | .array [] => ['[', ']']
  | .array (x :: xs) =>
    '[' :: (layout.lineBreak (depth + 1) ++ (chars layout (depth + 1) x
      ++ (itemChars layout (depth + 1) xs ++ (layout.lineBreak depth ++ [']']))))
  | .object [] => ['{', '}']
  | .object ((key, x) :: members) =>
    '{' :: (layout.lineBreak (depth + 1) ++ (stringChars key ++ (':' :: layout.afterColon
      ++ (chars layout (depth + 1) x
        ++ (memberChars layout (depth + 1) members ++ (layout.lineBreak depth ++ ['}']))))))

/-- The items of a list behind the first, each with its comma. -/
def itemChars (layout : Layout) (depth : Nat) : List Json → List Char
  | [] => []
  | x :: xs =>
    ',' :: (layout.lineBreak depth ++ (chars layout depth x ++ itemChars layout depth xs))

/-- The members of an object behind the first, each with its comma. -/
def memberChars (layout : Layout) (depth : Nat) : List (String × Json) → List Char
  | [] => []
  | (key, x) :: members =>
    ',' :: (layout.lineBreak depth ++ (stringChars key ++ (':' :: layout.afterColon
      ++ (chars layout depth x ++ memberChars layout depth members))))

end

/-- The text of a value in the compact layout. -/
def compact (value : Json) : String := String.ofList (chars .compact 0 value)

/-- The text of a value in the pretty layout. -/
def pretty (value : Json) : String := String.ofList (chars .pretty 0 value)

/-- A natural number as a value; one beyond 64 bits, which no count reaches, as a double. -/
def ofNat (n : Nat) : Json :=
  if h : n ≤ 18446744073709551615 then .number (.whole ⟨n, by omega, by omega⟩)
  else match Double.ofInt n with
    | .finite x => .number (.double x)
    | _ => .null

end Json

end RecordQuery
