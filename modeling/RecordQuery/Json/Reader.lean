/-
RecordQuery.Json.Reader — from text to JSON values.

A `Reader` takes the characters still unread and answers with a value and what
it left, or with a `Fault`. Lists and objects nest at most 127 deep. Numbers
follow the usual short cut: digits are gathered into 64 bits, digits that no
longer fit count only by their place, and the gathered number is scaled by one
multiplication or division of doubles; so a long fraction is not always read as
the nearest double.

Main definitions:
* `readText` — a string after its opening quote;
* `readNumber` — a number after its minus sign;
* `readItems`, `readMembers` — what stands between brackets, for any reader of
  items and members;
* `readValue`, `readWhole`, `Json.read`.
-/
import RecordQuery.Json.Fault

namespace RecordQuery.Json

/-- From unread characters to a value and the characters left. -/
abbrev Reader (α : Type) := List Char → Except Fault (α × List Char)

/-- White space between the tokens of JSON text. -/
def isSpace (c : Char) : Bool := c = ' ' || c = '\n' || c = '\t' || c = '\r'

/-- The characters from the first token on. -/
def skipSpace (cs : List Char) : List Char := cs.dropWhile isSpace

/-! ## Words -/

/-- What follows the letters of a word that has to come next. -/
def readWord : (word : List Char) → List Char → Except Fault (List Char)
  | [], cs => .ok cs
  | _ :: _, [] => .error (.last .endInValue [])
  | letter :: word, c :: cs =>
    if c = letter then readWord word cs else .error (.next .wantedLiteral (c :: cs))

/-! ## Strings -/

/-- The value of a hexadecimal digit. -/
def hexValue? (c : Char) : Option Nat :=
  if c.isDigit then some (c.toNat - '0'.toNat)
  else if 'a' ≤ c ∧ c ≤ 'f' then some (c.toNat - 'a'.toNat + 10)
  else if 'A' ≤ c ∧ c ≤ 'F' then some (c.toNat - 'A'.toNat + 10)
  else none

/-- The number that four hexadecimal digits name. Four bytes are taken in any case. -/
def readHex (cs : List Char) : Except Fault Nat :=
  match (cs.take 4).mapM hexValue? with
  | some [a, b, c, d] => .ok (((a * 16 + b) * 16 + c) * 16 + d)
  | _ =>
    if byteCount (cs.take 4) < 4 then .error (.last .endInString [])
    else .error ⟨.invalidEscape, cs, 4⟩

/-- The characters after a letter that has to come next in the second half of a surrogate pair. -/
def readPairLetter (letter : Char) : List Char → Except Fault (List Char)
  | [] => .error (.last .endInString [])
  | c :: cs =>
    if c = letter then .ok cs else .error (.next .unfinishedSurrogatePair (c :: cs))

/-- The second half of a surrogate pair, with its backslash and letter. -/
def readPair (cs : List Char) : Except Fault Nat := do
  let cs ← readPairLetter '\\' cs
  let cs ← readPairLetter 'u' cs
  let low ← readHex cs
  if 0xdc00 ≤ low ∧ low ≤ 0xdfff then .ok low
  else .error (.last .loneSurrogate (cs.drop 4))

/-- The character that the digits of a `\u` escape name, and how many characters that takes. -/
def readCodePoint (cs : List Char) : Except Fault (Char × Nat) := do
  let unit ← readHex cs
  if 0xdc00 ≤ unit ∧ unit ≤ 0xdfff then .error (.last .loneSurrogate (cs.drop 4))
  else if unit < 0xd800 ∨ 0xdbff < unit then .ok (Char.ofNat unit, 4)
  else
    let low ← readPair (cs.drop 4)
    .ok (Char.ofNat (0x10000 + (unit - 0xd800) * 0x400 + (low - 0xdc00)), 10)

/-- The character that an escape names after its backslash, and how many characters it takes. -/
def readEscape : List Char → Except Fault (Char × Nat)
  | [] => .error (.last .endInString [])
  | c :: cs =>
    if c = '"' ∨ c = '\\' ∨ c = '/' then .ok (c, 1)
    else if c = 'b' then .ok ('\x08', 1)
    else if c = 'f' then .ok ('\x0c', 1)
    else if c = 'n' then .ok ('\n', 1)
    else if c = 'r' then .ok ('\r', 1)
    else if c = 't' then .ok ('\t', 1)
    else if c = 'u' then (readCodePoint cs).map fun point => (point.1, point.2 + 1)
    else .error (.next .invalidEscape (c :: cs))

/-- The characters of a string up to its closing quote. The first `taken` characters belong to an
escape that has been read already. -/
def readChars : (taken : Nat) → Reader (List Char)
  | _, [] => .error (.last .endInString [])
  | taken + 1, _ :: cs => readChars taken cs
  | 0, c :: cs =>
    if c = '"' then .ok ([], cs)
    else if c = '\\' then
      match readEscape cs with
      | .error fault => .error fault
      | .ok (escaped, length) => prepend escaped (readChars length cs)
    else if c.toNat < 0x20 then .error (.next .controlCharacter (c :: cs))
    else prepend c (readChars 0 cs)
where
  /-- The result with one character more in front. -/
  prepend (c : Char) (result : Except Fault (List Char × List Char)) :
      Except Fault (List Char × List Char) :=
    result.map fun found => (c :: found.1, found.2)

/-- A string after its opening quote. -/
def readText : Reader String := fun cs =>
  (readChars 0 cs).map fun found => (String.ofList found.1, found.2)

/-! ## Numbers -/

/-- The largest number that is gathered digit by digit. -/
def gatherLimit : Nat := 18446744073709551615

/-- The value of a decimal digit. -/
def digitValue (c : Char) : Nat := c.toNat - '0'.toNat

/-- Digits at the start of a text that were gathered into a number. -/
structure Gathered where
  number : Nat
  count : Nat
  rest : List Char

/-- Gathers digits onto `number` as long as the result stays within the limit. -/
def gather (number : Nat) : List Char → Gathered
  | [] => ⟨number, 0, []⟩
  | c :: cs =>
    if c.isDigit ∧ number * 10 + digitValue c ≤ gatherLimit then
      let more := gather (number * 10 + digitValue c) cs
      ⟨more.number, more.count + 1, more.rest⟩
    else ⟨number, 0, c :: cs⟩

/-- The quotient by a power of ten up to 10^308; nothing is lost but by one rounding. -/
def divideByPower (x : Magnitude) (power : Nat) : Option Magnitude := do
  x.div? (← Magnitude.ofNat? (10 ^ power))

/-- A gathered number times a power of ten, by one multiplication or division of doubles where the
power is at most 308, and by one more division for smaller numbers. Nothing beyond the largest. -/
def scale (number : Nat) : (exponent : Int) → Option Magnitude
  | .ofNat k => do
    let x ← Magnitude.ofNat? number
    if k ≤ 308 then x.mul? (← Magnitude.ofNat? (10 ^ k))
    else if number = 0 then some x
    else none
  | .negSucc k => do
    let x ← Magnitude.ofNat? number
    if k + 1 ≤ 308 then divideByPower x (k + 1)
    else if k + 1 ≤ 616 then divideByPower (← divideByPower x 308) (k + 1 - 308)
    else some .zero

/-- The double of a gathered number and a power of ten. -/
def readScaled (negative : Bool) (number : Nat) (exponent : Int) : Reader Number := fun cs =>
  match scale number exponent with
  | some magnitude => .ok (.double ⟨negative, magnitude⟩, cs)
  | none => .error (.last .numberOutOfRange cs)

/-- The exponents that are computed with lie in 32 bits. -/
def clampExponent (exponent : Int) : Int := max (-2147483648) (min 2147483647 exponent)

/-- The digits of an exponent. One that exceeds 31 bits decides the number at once. -/
def readPower (negative : Bool) (number : Nat) (start : Int) (down : Bool) (power : Nat) :
    Reader Number
  | [] => finish []
  | c :: cs =>
    if c.isDigit then
      if power * 10 + digitValue c ≤ 2147483647 then
        readPower negative number start down (power * 10 + digitValue c) cs
      else if number ≠ 0 ∧ !down then .error (.last .numberOutOfRange cs)
      else .ok (.double ⟨negative, .zero⟩, cs.dropWhile Char.isDigit)
    else finish (c :: cs)
where
  /-- The exponent is complete. -/
  finish : Reader Number :=
    readScaled negative number (clampExponent (if down then start - power else start + power))

/-- An exponent after its letter. -/
def readExponent (negative : Bool) (number : Nat) (start : Int) (cs : List Char) :
    Except Fault (Number × List Char) :=
  match cs with
  | '+' :: cs => firstDigit false cs
  | '-' :: cs => firstDigit true cs
  | cs => firstDigit false cs
where
  /-- At least one digit has to follow. -/
  firstDigit (down : Bool) : Reader Number
    | [] => .error (.last .endInValue [])
    | c :: cs =>
      if c.isDigit then readPower negative number start down (digitValue c) cs
      else .error (.next .invalidNumber (c :: cs))

/-- The number ends here, unless an exponent follows. -/
def readTail (negative : Bool) (number : Nat) (exponent : Int) (cs : List Char) :
    Except Fault (Number × List Char) :=
  match cs with
  | 'e' :: cs => readExponent negative number exponent cs
  | 'E' :: cs => readExponent negative number exponent cs
  | cs => readScaled negative number exponent cs

/-- A fraction after its point: at least one digit, and digits that do not fit are passed over. -/
def readFraction (negative : Bool) (number : Nat) (exponent : Int) (cs : List Char) :
    Except Fault (Number × List Char) :=
  let digits := gather number cs
  let rest := digits.rest.dropWhile Char.isDigit
  if digits.count = 0 ∧ rest.length = cs.length then
    match cs with
    | [] => .error (.next .endInValue [])
    | cs => .error (.next .invalidNumber cs)
  else readTail negative digits.number (exponent - digits.count) rest

theorem neg_bounds {number : Nat} (h : number ≤ 9223372036854775808) :
    -9223372036854775808 ≤ -(number : Int) ∧ -(number : Int) ≤ 18446744073709551615 := by
  omega

theorem gathered_bounds {number : Nat} (h : number ≤ gatherLimit) :
    -9223372036854775808 ≤ (number : Int) ∧ (number : Int) ≤ 18446744073709551615 := by
  simp only [gatherLimit] at h
  omega

/-- A number without fraction and exponent: whole if it fits, a double otherwise. Minus zero is a
double. -/
def wholeNumber (negative : Bool) (number : Nat) : Option Number :=
  if negative then
    if h : 0 < number ∧ number ≤ 9223372036854775808 then
      some (.whole ⟨-(number : Int), (neg_bounds h.2).1, (neg_bounds h.2).2⟩)
    else (Magnitude.ofNat? number).map fun magnitude => .double ⟨true, magnitude⟩
  else if h : number ≤ gatherLimit then
    some (.whole ⟨number, (gathered_bounds h).1, (gathered_bounds h).2⟩)
  else (Magnitude.ofNat? number).map fun magnitude => .double ⟨false, magnitude⟩

/-- What follows the whole part of a number: `extra` digits did not fit into it. -/
def readAfterWhole (negative : Bool) (number extra : Nat) (cs : List Char) :
    Except Fault (Number × List Char) :=
  match cs with
  | '.' :: cs => readFraction negative number extra cs
  | 'e' :: cs => readExponent negative number extra cs
  | 'E' :: cs => readExponent negative number extra cs
  | cs =>
    if extra = 0 then
      match wholeNumber negative number with
      | some result => .ok (result, cs)
      | none => .error (.last .numberOutOfRange cs)
    else readScaled negative number extra cs

/-- A number after its minus sign, if it has one. Only zero starts with the digit zero. -/
def readNumber (negative : Bool) : Reader Number
  | [] => .error (.last .endInValue [])
  | c :: cs =>
    if c = '0' then
      match cs with
      | [] => readAfterWhole negative 0 0 []
      | d :: cs =>
        if d.isDigit then .error (.next .invalidNumber (d :: cs))
        else readAfterWhole negative 0 0 (d :: cs)
    else if c.isDigit then
      let digits := gather (digitValue c) cs
      let rest := digits.rest.dropWhile Char.isDigit
      readAfterWhole negative digits.number (digits.rest.length - rest.length) rest
    else .error (.next .invalidNumber (c :: cs))

/-! ## Lists and objects -/

/-- How lists and objects go on: with an entry that starts here, or closed with this left. -/
inductive Continuation where
  | entry (cs : List Char)
  | closed (cs : List Char)

/-- What comes next in a list. The first item stands without a comma in front. -/
def nextItem (first : Bool) (cs : List Char) : Except Fault Continuation :=
  match skipSpace cs with
  | [] => .error (.next .endInList [])
  | c :: cs =>
    if c = ']' then .ok (.closed cs)
    else if first then .ok (.entry (c :: cs))
    else if c = ',' then
      match skipSpace cs with
      | [] => .error (.next .endInValue [])
      | d :: cs =>
        if d = ']' then .error (.next .trailingComma (d :: cs)) else .ok (.entry (d :: cs))
    else .error (.next .wantedListCommaOrEnd (c :: cs))

/-- What comes next in an object; an entry starts behind the opening quote of its key. -/
def nextKey (first : Bool) (cs : List Char) : Except Fault Continuation :=
  match skipSpace cs with
  | [] => .error (.next .endInObject [])
  | c :: cs =>
    if c = '}' then .ok (.closed cs)
    else if first then
      if c = '"' then .ok (.entry cs) else .error (.next .keyNotString (c :: cs))
    else if c = ',' then
      match skipSpace cs with
      | [] => .error (.next .endInValue [])
      | d :: cs =>
        if d = '"' then .ok (.entry cs)
        else if d = '}' then .error (.next .trailingComma (d :: cs))
        else .error (.next .keyNotString (d :: cs))
    else .error (.next .wantedObjectCommaOrEnd (c :: cs))

/-- What follows the colon behind a key. -/
def readColon (cs : List Char) : Except Fault (List Char) :=
  match skipSpace cs with
  | [] => .error (.next .endInObject [])
  | c :: cs => if c = ':' then .ok cs else .error (.next .wantedColon (c :: cs))

variable {α σ : Type}

/-- The items of a list behind its opening bracket, at most `budget` of them. -/
def readItems (item : Reader α) : (budget : Nat) → (first : Bool) → Reader (List α)
  | 0, _, cs => .error (.next .wantedListCommaOrEnd cs)
  | budget + 1, first, cs =>
    match nextItem first cs with
    | .error fault => .error fault
    | .ok (.closed rest) => .ok ([], rest)
    | .ok (.entry start) =>
      match item start with
      | .error fault => .error fault
      | .ok (x, rest) =>
        (readItems item budget false rest).map fun found => (x :: found.1, found.2)

/-- Runs `member` on each key of an object behind its opening brace, at most `budget` times.
`member` starts behind the key and consumes colon and value. -/
def readMembers (member : σ → String → Reader σ) :
    (budget : Nat) → (first : Bool) → σ → Reader σ
  | 0, _, _, cs => .error (.next .wantedObjectCommaOrEnd cs)
  | budget + 1, first, state, cs =>
    match nextKey first cs with
    | .error fault => .error fault
    | .ok (.closed rest) => .ok (state, rest)
    | .ok (.entry start) =>
      match readText start with
      | .error fault => .error fault
      | .ok (key, rest) =>
        match member state key rest with
        | .error fault => .error fault
        | .ok (state, rest) => readMembers member budget false state rest

/-! ## Values -/

/-- How deep lists and objects may nest. -/
def maxLevels : Nat := 127

/-- A value. `levels` lists or objects may still be opened, each of at most `budget` entries. -/
def readValue (budget : Nat) : (levels : Nat) → Reader Json := fun levels cs =>
  match skipSpace cs with
  | [] => .error (.next .endInValue [])
  | c :: cs =>
    if c = '"' then (readText cs).map fun found => (.string found.1, found.2)
    else if c = '[' then
      match levels with
      | 0 => .error (.next .tooDeep (c :: cs))
      | levels + 1 =>
        (readItems (readValue budget levels) budget true cs).map fun found =>
          (.array found.1, found.2)
    else if c = '{' then
      match levels with
      | 0 => .error (.next .tooDeep (c :: cs))
      | levels + 1 =>
        let member (sofar : List (String × Json)) (key : String) : Reader (List (String × Json)) :=
          fun cs => do
            let (value, rest) ← readValue budget levels (← readColon cs)
            .ok (putEntry key value sofar, rest)
        (readMembers member budget true [] cs).map fun found => (.object found.1, found.2)
    else if c = 'n' then (readWord ['u', 'l', 'l'] cs).map fun rest => (.null, rest)
    else if c = 't' then (readWord ['r', 'u', 'e'] cs).map fun rest => (.bool true, rest)
    else if c = 'f' then (readWord ['a', 'l', 's', 'e'] cs).map fun rest => (.bool false, rest)
    else if c = '-' then (readNumber true cs).map fun found => (.number found.1, found.2)
    else if c.isDigit then
      (readNumber false (c :: cs)).map fun found => (.number found.1, found.2)
    else .error (.next .wantedValue (c :: cs))

/-- White space in front of a value makes no difference. -/
theorem readValue_congr {budget levels : Nat} {cs ds : List Char} (h : skipSpace cs = skipSpace ds) :
    readValue budget levels cs = readValue budget levels ds := by
  rw [readValue, readValue, h]

/-- A whole text: the reader gets the text and a budget that suffices for it, and nothing but white
space may be left. -/
def readWhole (reader : (budget : Nat) → Reader α) (text : String) : Except ReadError α :=
  let cs := text.toList
  match reader (cs.length + 1) cs with
  | .error fault => .error (fault.inText cs)
  | .ok (x, rest) =>
    match skipSpace rest with
    | [] => .ok x
    | rest => .error ((Fault.next .trailingCharacters rest).inText cs)

/-- The value that a text holds. -/
def read (text : String) : Except ReadError Json :=
  readWhole (fun budget => readValue budget maxLevels) text

end RecordQuery.Json
