/-
RecordQuery.Toml.Quoted — strings of a TOML document as they are written.

A string may stand in double quotes with escapes or in single quotes without,
and in either case between one quote or three. Plain double quotes come first;
a string that would need escapes there is written in single quotes if it holds
none, then between three double quotes if it needs no escapes there, then
between three single quotes. Where nothing goes without escapes, double quotes
are taken: three if the string has several lines, one otherwise. Such a string
of several lines begins on a line of its own.

Main definitions:
* `Quoting`, `quotingOf` — how a string is written;
* `escapedBody`, `quoted`.
-/

namespace RecordQuery.Toml

/-! ## What a string holds -/

/-- A control character that no string may hold without escape. -/
def isControl (c : Char) : Bool := (c.toNat < 0x20 && c ≠ '\t' && c ≠ '\n') || c.toNat = 0x7f

/-- The length of the longest run of a character, where the string goes on a run of given length. -/
def longestRunFrom (quote : Char) (run : Nat) : List Char → Nat
  | [] => run
  | c :: cs =>
    if c = quote then longestRunFrom quote (run + 1) cs
    else max run (longestRunFrom quote 0 cs)

/-- The length of the longest run of a character. -/
def longestRun (quote : Char) (cs : List Char) : Nat := longestRunFrom quote 0 cs

/-! ## The choice of quotes -/

/-- The quotes around a string. Only double quotes allow escapes. -/
inductive Quoting where
  | double
  | single
  | tripleDouble
  | tripleSingle
  deriving DecidableEq

/-- How a string is written. Inside of three quotes, up to two in a row are no end. -/
def quotingOf (cs : List Char) : Quoting :=
  let hasControl := cs.any isControl
  let hasBackslash := cs.contains '\\'
  let several := cs.contains '\n'
  let doubles := longestRun '"' cs
  let singles := longestRun '\'' cs
  if !hasControl && !hasBackslash && doubles = 0 && !several then .double
  else if !hasControl && singles = 0 && !several then .single
  else if !hasControl && !hasBackslash && doubles ≤ 2 then .tripleDouble
  else if !hasControl && singles ≤ 2 then .tripleSingle
  else if several then .tripleDouble
  else .double

/-- The quotes at either end. -/
def Quoting.mark : Quoting → List Char
  | .double => ['"']
  | .single => ['\'']
  | .tripleDouble => ['"', '"', '"']
  | .tripleSingle => ['\'', '\'', '\'']

/-! ## Escapes -/

/-- A code point as four hexadecimal digits. -/
def fourDigits (point : Nat) : List Char :=
  let digits := (Nat.toDigits 16 point).map Char.toUpper
  List.replicate (4 - digits.length) '0' ++ digits

/-- A character other than a quote between double quotes. Line feeds stand for themselves. -/
def escaped (c : Char) : List Char :=
  if c = '\x08' then ['\\', 'b']
  else if c = '\t' then ['\\', 't']
  else if c = '\x0c' then ['\\', 'f']
  else if c = '\r' then ['\\', 'r']
  else if c = '\\' then ['\\', '\\']
  else if isControl c then '\\' :: 'u' :: fourDigits c.toNat
  else [c]

/-- A string between double quotes, which may hold up to `allowed` quotes in a row; the next one is
escaped. So many as `run` stand directly in front. -/
def escapedBody (allowed run : Nat) : List Char → List Char
  | [] => []
  | c :: cs =>
    if c = '"' then
      if run < allowed then '"' :: escapedBody allowed (run + 1) cs
      else '\\' :: '"' :: escapedBody allowed 0 cs
    else escaped c ++ escapedBody allowed 0 cs

/-- A string without its quotes. -/
def Quoting.body (quoting : Quoting) (cs : List Char) : List Char :=
  match quoting with
  | .double => escapedBody 0 0 cs
  | .tripleDouble => escapedBody 2 0 cs
  | .single | .tripleSingle => cs

/-- A string as it is written. -/
def quoted (cs : List Char) : List Char :=
  let quoting := quotingOf cs
  let lineFeed := if cs.contains '\n' then ['\n'] else []
  quoting.mark ++ (lineFeed ++ (quoting.body cs ++ quoting.mark))

end RecordQuery.Toml
