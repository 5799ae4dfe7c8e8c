/-
RecordQuery.Text.Quoted — text between quotes in messages.

A message that shows a text puts it between double quotes. Quotes, backslashes
and line breaks are escaped, and hidden characters are written by their code
point.

Main definitions:
* `quoteChar`, `quoteText`.
-/
import RecordQuery.Text.Hidden

namespace RecordQuery

/-- A character as it stands between quotes. -/
def quoteChar (c : Char) : List Char :=
  if c = '\x00' then ['\\', '0']
  else if c = '\t' then ['\\', 't']
  else if c = '\r' then ['\\', 'r']
  else if c = '\n' then ['\\', 'n']
  else if c = '\\' then ['\\', '\\']
  else if c = '"' then ['\\', '"']
  else if isHidden c then
    ['\\', 'u', '\x7b'] ++ Nat.toDigits 16 c.toNat ++ ['\x7d']
  else [c]

/-- A text between double quotes. -/
def quoteText (text : String) : String :=
  String.ofList ('"' :: text.toList.flatMap quoteChar ++ ['"'])

end RecordQuery
