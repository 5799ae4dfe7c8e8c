/-
RecordQuery.Json.Fault — why a JSON text cannot be read, and where.

A reader stops with a `Fault`: the cause, the text not yet consumed, and how
many bytes beyond it the place lies that is blamed. From these and the whole
text `Fault.inText` works out the line, counted from 1, and the column, counted
in bytes since the last line feed.

Main definitions:
* `Found`, `Cause` and their messages;
* `Fault`, `ReadError`;
* `Fault.inText`.
-/
import RecordQuery.Json.Basic
import RecordQuery.Double.Text
import RecordQuery.Text.Quoted

namespace RecordQuery

/-- The digits of a whole number with its sign. -/
def Whole.chars (n : Whole) : List Char :=
  signChars (decide (n.value < 0)) ++ Nat.toDigits 10 n.value.natAbs

namespace Json

/-- What a typed reader found where it wanted something else. -/
inductive Found where
  | null
  | bool (value : Bool)
  | number (value : Number)
  | string (text : String)
  | sequence
  | map
  deriving DecidableEq

/-- What there is to say about a value that is not of the wanted type. -/
def Found.ofJson : Json → Found
  | .null => .null
  | .bool value => .bool value
  | .number value => .number value
  | .string text => .string text
  | .array _ => .sequence
  | .object _ => .map

def Found.message : Found → String
  | .null => "null"
  | .bool value => s!"boolean `{value}`"
  | .number (.whole n) => "integer `" ++ String.ofList n.chars ++ "`"
  | .number (.double x) => "floating point `" ++ String.ofList x.jsonChars ++ "`"
  | .string text => "string " ++ quoteText text
  | .sequence => "sequence"
  | .map => "map"

/-- Why reading stops. The last five causes concern the type of a well-formed text. -/
inductive Cause where
  | endInList
  | endInObject
  | endInString
  | endInValue
  | wantedColon
  | wantedListCommaOrEnd
  | wantedObjectCommaOrEnd
  | wantedLiteral
  | wantedValue
  | invalidEscape
  | invalidNumber
  | numberOutOfRange
  | controlCharacter
  | keyNotString
  | loneSurrogate
  | unfinishedSurrogatePair
  | trailingComma
  | trailingCharacters
  | tooDeep
  | invalidType (found : Found) (wanted : String)
  | invalidValue (found : Found) (wanted : String)
  | invalidLength (length : Nat) (wanted : String)
  | missingField (name : String)
  | duplicateField (name : String)
  deriving DecidableEq

def Cause.message : Cause → String
  | .endInList => "EOF while parsing a list"
  | .endInObject => "EOF while parsing an object"
  | .endInString => "EOF while parsing a string"
  | .endInValue => "EOF while parsing a value"
  | .wantedColon => "expected `:`"
  | .wantedListCommaOrEnd => "expected `,` or `]`"
  | .wantedObjectCommaOrEnd => "expected `,` or `\x7d`"
  | .wantedLiteral => "expected ident"
  | .wantedValue => "expected value"
  | .invalidEscape => "invalid escape"
  | .invalidNumber => "invalid number"
  | .numberOutOfRange => "number out of range"
  | .controlCharacter => "control character (\\u0000-\\u001F) found while parsing a string"
  | .keyNotString => "key must be a string"
  | .loneSurrogate => "lone leading surrogate in hex escape"
  | .unfinishedSurrogatePair => "unexpected end of hex escape"
  | .trailingComma => "trailing comma"
  | .trailingCharacters => "trailing characters"
  | .tooDeep => "recursion limit exceeded"
  | .invalidType found wanted => "invalid type: " ++ found.message ++ ", expected " ++ wanted
  | .invalidValue found wanted => "invalid value: " ++ found.message ++ ", expected " ++ wanted
  | .invalidLength length wanted => s!"invalid length {length}, expected {wanted}"
  | .missingField name => s!"missing field `{name}`"
  | .duplicateField name => s!"duplicate field `{name}`"

/-- A cause, the text still unread when it was met, and how many bytes past its start are blamed. -/
structure Fault where
  cause : Cause
  unread : List Char
  ahead : Nat
  deriving DecidableEq

namespace Fault

/-- The fault lies in the byte that comes next. -/
def next (cause : Cause) (unread : List Char) : Fault := ⟨cause, unread, 1⟩

/-- The fault lies in what was consumed last. -/
def last (cause : Cause) (unread : List Char) : Fault := ⟨cause, unread, 0⟩

end Fault

/-- A fault with its place in the text. -/
structure ReadError where
  cause : Cause
  line : Nat
  column : Nat
  deriving DecidableEq

def ReadError.message (e : ReadError) : String :=
  e.cause.message ++ s!" at line {e.line} column {e.column}"

/-- The number of bytes that the characters take. -/
def byteCount (cs : List Char) : Nat := cs.foldl (fun total c => total + c.utf8Size) 0

/-- Line and column after `bytes` bytes of the characters, from a given line and column on. -/
def place (line column bytes : Nat) : List Char → Nat × Nat
  | [] => (line, column)
  | c :: cs =>
    if bytes = 0 then (line, column)
    else if c = '\n' then place (line + 1) 0 (bytes - 1) cs
    else if bytes < c.utf8Size then (line, column + bytes)
    else place line (column + c.utf8Size) (bytes - c.utf8Size) cs

/-- The place of a fault in the text that was read. -/
def Fault.inText (text : List Char) (fault : Fault) : ReadError :=
  let size := byteCount text
  let consumed := size - byteCount fault.unread
  let spot := place 1 0 (min size (consumed + fault.ahead)) text
  ⟨fault.cause, spot.1, spot.2⟩

end Json

end RecordQuery
