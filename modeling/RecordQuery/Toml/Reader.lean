/-
RecordQuery.Toml.Reader — from text to TOML values.

A reader takes the characters still unread and answers with a value and what it
left, or with nothing. What may follow a value is left to the caller: a value
that is cut short leaves a character behind that no caller accepts.

Main definitions:
* `skipBlanks`, `skipLineEnd`, `skipSpace` — what stands between tokens;
* `readText` — the four kinds of strings;
* `readNumber`, `readMoment` — numbers, dates and times;
* `readKey` — a dotted key;
* `readValue`.
-/
import RecordQuery.Toml.Basic
import RecordQuery.Double.Numeral
import RecordQuery.Json.Reader

namespace RecordQuery.Toml

/-- From unread characters to a value and the characters left. -/
abbrev Reader (α : Type) := List Char → Option (α × List Char)

variable {α : Type}

/-! ## Blanks, line ends and comments -/

/-- A space or a tab. -/
def isBlank (c : Char) : Bool := c = ' ' || c = '\t'

/-- A character of a comment or a string: no control character but the tab. -/
def isPlain (c : Char) : Bool := c = '\t' || (0x20 ≤ c.toNat && c.toNat ≠ 0x7f)

/-- The characters from the first on that is not blank. -/
def skipBlanks (cs : List Char) : List Char := cs.dropWhile isBlank

/-- What follows a line feed, with or without carriage return before it. -/
def skipNewline : List Char → Option (List Char)
  | '\n' :: cs => some cs
  | '\r' :: '\n' :: cs => some cs
  | _ => none

/-- What follows a comment, if there is one. -/
def skipComment : List Char → List Char
  | '#' :: cs => cs.dropWhile isPlain
  | cs => cs

/-- What follows the end of a line, before which only blanks and a comment may stand. -/
def skipLineEnd (cs : List Char) : Option (List Char) :=
  match skipComment (skipBlanks cs) with
  | [] => some []
  | cs => skipNewline cs

/-- What follows blanks, comments and line ends. A comment has to end with its line. -/
def skipSpace : (budget : Nat) → List Char → Option (List Char)
  | 0, _ => none
  | budget + 1, cs =>
    match skipBlanks cs with
    | '#' :: cs => (skipNewline (cs.dropWhile isPlain)).bind (skipSpace budget)
    | '\n' :: cs => skipSpace budget cs
    | '\r' :: cs => (skipNewline ('\r' :: cs)).bind (skipSpace budget)
    | cs => some cs

/-! ## Strings -/

/-- The character that a number of hexadecimal digits names. -/
def readCodePoint (length : Nat) (cs : List Char) : Option Char := do
  let digits ← (cs.take length).mapM Json.hexValue?
  let point := digits.foldl (fun number digit => number * 16 + digit) 0
  if digits.length = length ∧ point.isValidChar then some (Char.ofNat point) else none

/-- The character that an escape names after its backslash, and how many characters it takes. -/
def readEscape : List Char → Option (Char × Nat)
  | 'b' :: _ => some ('\x08', 1)
  | 't' :: _ => some ('\t', 1)
  | 'n' :: _ => some ('\n', 1)
  | 'f' :: _ => some ('\x0c', 1)
  | 'r' :: _ => some ('\r', 1)
  | '"' :: _ => some ('"', 1)
  | '\\' :: _ => some ('\\', 1)
  | 'u' :: cs => (readCodePoint 4 cs).map fun c => (c, 5)
  | 'U' :: cs => (readCodePoint 8 cs).map fun c => (c, 9)
  | _ => none

/-- A reader's result with one more character in front. -/
def prepend (c : Char) (result : Option (List Char × List Char)) :
    Option (List Char × List Char) :=
  result.map fun found => (c :: found.1, found.2)

/-- A string in double quotes, after the opening one. The first `taken` characters belong to an
escape that has been read already. -/
def readBasic : (taken : Nat) → Reader (List Char)
  | _, [] => none
  | taken + 1, _ :: cs => readBasic taken cs
  | 0, '"' :: cs => some ([], cs)
  | 0, '\\' :: cs =>
    match readEscape cs with
    | none => none
    | some (c, length) => prepend c (readBasic length cs)
  | 0, c :: cs => if isPlain c then prepend c (readBasic 0 cs) else none

/-- A string in single quotes, after the opening one. -/
def readLiteral : Reader (List Char)
  | [] => none
  | '\'' :: cs => some ([], cs)
  | c :: cs => if isPlain c then prepend c (readLiteral cs) else none

/-- How many characters a backslash at the end of a line skips: the blanks up to the line end and
all blanks and line ends behind it. -/
def foldedLength (cs : List Char) : Option Nat := do
  let rest ← skipNewline (skipBlanks cs)
  let behind := skipFolded rest
  some (cs.length - behind.length)
where
  /-- What follows blanks and line ends. -/
  skipFolded : List Char → List Char
    | [] => []
    | '\r' :: '\n' :: cs => skipFolded cs
    | c :: cs => if c = '\n' ∨ isBlank c then skipFolded cs else c :: cs

/-- The end of a string between triple quotes, at its last quotes: up to two more of them belong to
the text. -/
def closeTriple (quote : Char) (cs : List Char) : Option (List Char × List Char) :=
  let count := (cs.takeWhile (· = quote)).length
  if count < 3 then none
  else
    let more := min (count - 3) 2
    some (List.replicate more quote, cs.drop (3 + more))

/-- A string between triple quotes, after the opening ones. Single line feeds stand for every line
end; with escapes a backslash names a character or joins lines. -/
def readTriple (quote : Char) (escapes : Bool) : (taken : Nat) → Reader (List Char)
  | _, [] => none
  | taken + 1, _ :: cs => readTriple quote escapes taken cs
  | 0, c :: cs =>
    if c = quote then
      match closeTriple quote (c :: cs) with
      | some found => some found
      | none => prepend c (readTriple quote escapes 0 cs)
    else if c = '\\' ∧ escapes then
      match foldedLength cs with
      | some length => readTriple quote escapes length cs
      | none =>
        match readEscape cs with
        | none => none
        | some (escaped, length) => prepend escaped (readTriple quote escapes length cs)
    else if c = '\n' then prepend '\n' (readTriple quote escapes 0 cs)
    else if c = '\r' then
      if cs.head? = some '\n' then prepend '\n' (readTriple quote escapes 1 cs) else none
    else if isPlain c then prepend c (readTriple quote escapes 0 cs)
    else none

/-- The text without a line end at its start. -/
def dropNewline (cs : List Char) : List Char := (skipNewline cs).getD cs

/-- A string of any of the four kinds. -/
def readText (cs : List Char) : Option (String × List Char) :=
  let found := match cs with
    | '"' :: '"' :: '"' :: cs => readTriple '"' true 0 (dropNewline cs)
    | '"' :: cs => readBasic 0 cs
    | '\'' :: '\'' :: '\'' :: cs => readTriple '\'' false 0 (dropNewline cs)
    | '\'' :: cs => readLiteral cs
    | _ => none
  found.map fun found => (String.ofList found.1, found.2)

/-! ## Numbers -/

/-- The digits that go on after a digit; single underscores stand between digits only. -/
def moreDigits (accept : Char → Bool) : Reader (List Char)
  | [] => some ([], [])
  | '_' :: c :: cs => if accept c then prepend c (moreDigits accept cs) else none
  | c :: cs =>
    if c = '_' then none
    else if accept c then prepend c (moreDigits accept cs)
    else some ([], c :: cs)

/-- One or more digits. -/
def readDigits (accept : Char → Bool) : Reader (List Char)
  | [] => none
  | c :: cs => if accept c then prepend c (moreDigits accept cs) else none

/-- The digits of a whole number: a zero stands alone. -/
def readWhole : Reader (List Char)
  | '0' :: cs => some (['0'], cs)
  | cs => readDigits Char.isDigit cs

/-- An integer of 64 bits. -/
def toInteger (negative : Bool) (magnitude : Nat) : Option Toml :=
  let value : Int := if negative then -magnitude else magnitude
  if -9223372036854775808 ≤ value ∧ value ≤ 9223372036854775807 then some (.integer value)
  else none

/-- Digits to a base, after the letters that name it. -/
def readBased (base : Nat) (accept : Char → Bool) (cs : List Char) :
    Option (Toml × List Char) := do
  let (digits, rest) ← readDigits accept cs
  let values ← digits.mapM Json.hexValue?
  let number ← toInteger false (values.foldl (fun number digit => number * base + digit) 0)
  some (number, rest)

/-- An exponent after its letter. -/
def readPower (cs : List Char) : Option (Int × List Char) := do
  let sign := Numeral.readSign cs
  let (digits, rest) ← readDigits Char.isDigit sign.2
  let size : Int := digitsValue digits
  some (if sign.1 then -size else size, rest)

/-- The exponent of a number, 0 if it has none. -/
def readExponent : Reader Int
  | 'e' :: cs | 'E' :: cs => readPower cs
  | cs => some (0, cs)

/-- A number with fraction or exponent. Only a negative one may be too large for a double. -/
def toFloat (negative : Bool) (digits : List Char) (exponent : Int) : Option Toml :=
  match Decimal.toMagnitude? ⟨digitsValue digits, exponent⟩, negative with
  | none, false => none
  | magnitude, _ => some (.float (.ofMagnitude? negative magnitude))

/-- A decimal number after its sign: an integer, unless a fraction or an exponent follows. -/
def readDecimal (negative : Bool) (cs : List Char) : Option (Toml × List Char) := do
  let (whole, rest) ← readWhole cs
  match rest with
  | '.' :: rest =>
    let (fraction, rest) ← readDigits Char.isDigit rest
    let (exponent, rest) ← readExponent rest
    some (← toFloat negative (whole ++ fraction) (exponent - fraction.length), rest)
  | 'e' :: _ | 'E' :: _ =>
    let (exponent, rest) ← readExponent rest
    some (← toFloat negative whole exponent, rest)
  | rest => some (← toInteger negative (digitsValue whole), rest)

/-- A number. -/
def readNumber : Reader Toml
  | '0' :: 'x' :: cs => readBased 16 (fun c => (Json.hexValue? c).isSome) cs
  | '0' :: 'o' :: cs => readBased 8 (fun c => '0' ≤ c && c ≤ '7') cs
  | '0' :: 'b' :: cs => readBased 2 (fun c => c = '0' || c = '1') cs
  | cs =>
    let sign := Numeral.readSign cs
    match sign.2 with
    | 'i' :: 'n' :: 'f' :: rest => some (.float (.infinity sign.1), rest)
    | 'n' :: 'a' :: 'n' :: rest => some (.float .nan, rest)
    | rest => readDecimal sign.1 rest

/-! ## Dates and times -/

/-- A number of exactly so many digits between two bounds. -/
def readField (length lower upper : Nat) (cs : List Char) : Option (Nat × List Char) :=
  let digits := cs.take length
  let number := digitsValue digits
  if digits.length = length ∧ digits.all Char.isDigit ∧ lower ≤ number ∧ number ≤ upper then
    some (number, cs.drop length)
  else none

/-- What follows a character that has to come next. -/
def skipChar (c : Char) : List Char → Option (List Char)
  | [] => none
  | d :: cs => if d = c then some cs else none

/-- How many days a month has. -/
def monthLength (year month : Nat) : Nat :=
  if month = 2 then
    if year % 4 = 0 ∧ (year % 100 ≠ 0 ∨ year % 400 = 0) then 29 else 28
  else if month ∈ [4, 6, 9, 11] then 30
  else 31

/-- What follows a date. -/
def skipDate (cs : List Char) : Option (List Char) := do
  let (year, cs) ← readField 4 0 9999 cs
  let (month, cs) ← readField 2 1 12 (← skipChar '-' cs)
  let (_, cs) ← readField 2 1 (monthLength year month) (← skipChar '-' cs)
  some cs

/-- What follows the fraction of a second, if there is one. -/
def skipSecondPart : List Char → Option (List Char)
  | '.' :: c :: cs => if c.isDigit then some (cs.dropWhile Char.isDigit) else none
  | '.' :: [] => none
  | cs => some cs

/-- What follows a time of day. A minute may have a leap second. -/
def skipTime (cs : List Char) : Option (List Char) := do
  let (_, cs) ← readField 2 0 23 cs
  let (_, cs) ← readField 2 0 59 (← skipChar ':' cs)
  let (_, cs) ← readField 2 0 60 (← skipChar ':' cs)
  skipSecondPart cs

/-- What follows a distance from universal time, if there is one. -/
def skipOffset : List Char → Option (List Char)
  | 'Z' :: cs | 'z' :: cs => some cs
  | '+' :: cs | '-' :: cs => do
    let (_, cs) ← readField 2 0 23 cs
    let (_, cs) ← readField 2 0 59 (← skipChar ':' cs)
    some cs
  | cs => some cs

/-- What follows a date, with or without a time after it, or a time. -/
def skipMoment (cs : List Char) : Option (List Char) :=
  match skipDate cs with
  | none => skipTime cs
  | some (c :: rest) =>
    if c = 'T' ∨ c = 't' ∨ c = ' ' then
      match skipTime rest with
      | some rest => skipOffset rest
      | none => some (c :: rest)
    else some (c :: rest)
  | some [] => some []

/-- A date, a time, or both. -/
def readMoment (cs : List Char) : Option (Toml × List Char) :=
  (skipMoment cs).map fun rest =>
    (.moment (String.ofList (cs.take (cs.length - rest.length))), rest)

/-! ## Keys -/

/-- A character of a key without quotes. -/
def isBare (c : Char) : Bool := c.isAlphanum || c = '-' || c = '_'

/-- A single key, in quotes of either kind or without. -/
def readSimpleKey (cs : List Char) : Option (String × List Char) :=
  let found := match cs with
    | '"' :: cs => readBasic 0 cs
    | '\'' :: cs => readLiteral cs
    | cs =>
      if (cs.takeWhile isBare).isEmpty then none
      else some (cs.takeWhile isBare, cs.dropWhile isBare)
  found.map fun found => (String.ofList found.1, found.2)

/-- Keys with dots between them and blanks around them. -/
def readKeys : (budget : Nat) → Reader (List String)
  | 0, _ => none
  | budget + 1, cs => do
    let (key, rest) ← readSimpleKey (skipBlanks cs)
    match skipBlanks rest with
    | '.' :: rest =>
      let (keys, rest) ← readKeys budget rest
      some (key :: keys, rest)
    | rest => some ([key], rest)

/-- Keys and values may be nested less deep than this. -/
def levelLimit : Nat := 80

/-- A dotted key: the path to a table and the key in it. -/
def readKey (budget : Nat) (cs : List Char) : Option ((List String × String) × List Char) := do
  let (keys, rest) ← readKeys budget cs
  let last ← keys.getLast?
  if keys.length < levelLimit then some ((keys.dropLast, last), rest) else none

/-! ## Values -/

/-- The items of a list, after its opening bracket or a comma, up to the closing bracket. -/
def readItems (item : Reader α) : (budget : Nat) → Reader (List α)
  | 0, _ => none
  | budget + 1, cs => do
    match ← skipSpace (cs.length + 1) cs with
    | ']' :: rest => some ([], rest)
    | cs =>
      let (first, rest) ← item cs
      match ← skipSpace (rest.length + 1) rest with
      | ']' :: rest => some ([first], rest)
      | ',' :: rest =>
        let (more, rest) ← readItems item budget rest
        some (first :: more, rest)
      | _ => none

/-- The entries of a table in braces, after the opening one or a comma, up to the closing one. -/
def readInline (item : Reader Toml) : (budget : Nat) → Entries → Reader Entries
  | 0, _, _ => none
  | budget + 1, entries, cs => do
    let ((path, key), rest) ← readKey (cs.length + 1) cs
    let (value, rest) ← item (skipBlanks (← skipChar '=' rest))
    let entries ← entries.assignInline key value path
    match skipBlanks rest with
    | ',' :: rest => readInline item budget entries rest
    | rest => some (entries, ← skipChar '\x7d' rest)

/-- A value inside at most `levels` lists and braces. -/
def readValue : (levels : Nat) → Reader Toml
  | 0, cs => readScalar cs
  | levels + 1, cs =>
    match cs with
    | '[' :: rest =>
      (readItems (readValue levels) (rest.length + 1) rest).map fun found =>
        (.array found.1, found.2)
    | '\x7b' :: rest =>
      match skipBlanks rest with
      | '\x7d' :: rest => some (.inline .header [], rest)
      | rest =>
        (readInline (readValue levels) (rest.length + 1) [] rest).map fun found =>
          (.inline .header found.1, found.2)
    | cs => readScalar cs
where
  /-- A value that is neither a list nor a table. -/
  readScalar (cs : List Char) : Option (Toml × List Char) :=
    match cs with
    | '"' :: _ | '\'' :: _ => (readText cs).map fun found => (.text found.1, found.2)
    | 't' :: 'r' :: 'u' :: 'e' :: rest => some (.boolean true, rest)
    | 'f' :: 'a' :: 'l' :: 's' :: 'e' :: rest => some (.boolean false, rest)
    | cs => (readMoment cs).or (readNumber cs)

end RecordQuery.Toml
