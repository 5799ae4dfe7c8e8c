/-
RecordQuery.Json.Typed — reading text straight into typed values.

A typed reader wants a string, an integer of some range, a list, or an object
with certain fields, and blames the first thing that is something else while
the text is still being read. An object with fixed fields may also be given as
the list of its fields in order. Fields that are not known are skipped without
being read: the skipper checks the tokens alone, not the range of numbers, not
surrogate pairs, and not the depth of nesting.

Main definitions:
* `mismatch` — the fault of a value of the wrong type;
* `readString`, `readInt`, `readOptional`, `readList`, `readObject`;
* `skipValue`;
* `readFieldwise` — an object with fixed fields, or the list of them.
-/
import RecordQuery.Json.Reader

namespace RecordQuery.Json

variable {α σ : Type}

/-- The fault of a value that is not of the wanted type: it lies behind a scalar and before a list
or an object. A scalar that cannot be read has a fault of its own. -/
def mismatch (wanted : String) (cs : List Char) : Fault :=
  let behind (found : Found) (rest : List Char) : Fault := .last (.invalidType found wanted) rest
  let word (letters : List Char) (found : Found) (cs : List Char) : Fault :=
    match readWord letters cs with
    | .error fault => fault
    | .ok rest => behind found rest
  let number (negative : Bool) (cs : List Char) : Fault :=
    match readNumber negative cs with
    | .error fault => fault
    | .ok (n, rest) => behind (.number n) rest
  match cs with
  | [] => .next .wantedValue []
  | c :: cs =>
    if c = 'n' then word ['u', 'l', 'l'] .null cs
    else if c = 't' then word ['r', 'u', 'e'] (.bool true) cs
    else if c = 'f' then word ['a', 'l', 's', 'e'] (.bool false) cs
    else if c = '-' then number true cs
    else if c.isDigit then number false (c :: cs)
    else if c = '"' then
      match readText cs with
      | .error fault => fault
      | .ok (text, rest) => behind (.string text) rest
    else if c = '[' then behind .sequence (c :: cs)
    else if c = '{' then behind .map (c :: cs)
    else .next .wantedValue (c :: cs)

/-- A string. -/
def readString : Reader String := fun cs =>
  match skipSpace cs with
  | [] => .error (.next .endInValue [])
  | c :: cs => if c = '"' then readText cs else .error (mismatch "a string" (c :: cs))

/-- An integer from `lower` to `upper`; `wanted` names the type in messages. -/
def readInt (lower upper : Int) (wanted : String) : Reader Int := fun cs =>
  let check : Number × List Char → Except Fault (Int × List Char)
    | (.whole n, rest) =>
      if lower ≤ n.value ∧ n.value ≤ upper then .ok (n.value, rest)
      else .error (.last (.invalidValue (.number (.whole n)) wanted) rest)
    | (.double x, rest) => .error (.last (.invalidType (.number (.double x)) wanted) rest)
  match skipSpace cs with
  | [] => .error (.next .endInValue [])
  | c :: cs =>
    if c = '-' then (readNumber true cs).bind check
    else if c.isDigit then (readNumber false (c :: cs)).bind check
    else .error (mismatch wanted (c :: cs))

/-- A value or `null`. -/
def readOptional (reader : Reader α) : Reader (Option α) := fun cs =>
  match skipSpace cs with
  | 'n' :: cs => (readWord ['u', 'l', 'l'] cs).map fun rest => (none, rest)
  | cs => (reader cs).map fun found => (some found.1, found.2)

/-- A list of items, which are read one level deeper. -/
def readList (budget levels : Nat) (item : (levels : Nat) → Reader α) : Reader (List α) := fun cs =>
  match skipSpace cs with
  | [] => .error (.next .endInValue [])
  | c :: cs =>
    if c = '[' then
      match levels with
      | 0 => .error (.next .tooDeep (c :: cs))
      | levels + 1 => readItems (item levels) budget true cs
    else .error (mismatch "a sequence" (c :: cs))

/-- The members of an object, which are read one level deeper; `wanted` names the type. -/
def readObject (budget levels : Nat) (wanted : String) (initial : σ)
    (member : (levels : Nat) → σ → String → Reader σ) : Reader σ := fun cs =>
  match skipSpace cs with
  | [] => .error (.next .endInValue [])
  | c :: cs =>
    if c = '{' then
      match levels with
      | 0 => .error (.next .tooDeep (c :: cs))
      | levels + 1 => readMembers (member levels) budget true initial cs
    else .error (mismatch wanted (c :: cs))

/-- The members of an object of any values, as a map. -/
def readMap (budget levels : Nat) : Reader (Keyed Json) :=
  readObject budget levels "a map" .empty fun levels map key cs => do
    let (value, rest) ← readValue budget levels (← readColon cs)
    .ok (map.insert key value, rest)

/-- The object that a text holds, as a map. -/
def parseMap (text : String) : Except ReadError (Keyed Json) :=
  readWhole (fun budget => readMap budget maxLevels) text

/-- The values that a text lists. -/
def parseList (text : String) : Except ReadError (List Json) :=
  readWhole (fun budget => readList budget maxLevels (readValue budget)) text

/-- The objects that a text lists, as maps. -/
def parseMaps (text : String) : Except ReadError (List (Keyed Json)) :=
  readWhole (fun budget => readList budget maxLevels (readMap budget)) text

/-! ## Skipping -/

/-- A list or an object that is being skipped. -/
inductive Bracket where
  | list
  | object
  deriving DecidableEq

/-- What follows a string that is skipped, after its opening quote. A control character is blamed
at the place before it. -/
def skipText : (taken : Nat) → List Char → Except Fault (List Char)
  | _, [] => .error (.last .endInString [])
  | taken + 1, _ :: cs => skipText taken cs
  | 0, c :: cs =>
    if c = '"' then .ok cs
    else if c = '\\' then
      match cs with
      | [] => .error (.last .endInString [])
      | d :: rest =>
        if d ∈ ['"', '\\', '/', 'b', 'f', 'n', 'r', 't'] then skipText 1 cs
        else if d = 'u' then
          match readHex rest with
          | .error fault => .error fault
          | .ok _ => skipText 5 cs
        else .error (.next .invalidEscape cs)
    else if c.toNat < 0x20 then .error (.last .controlCharacter (c :: cs))
    else skipText 0 cs

/-- What follows an exponent that is skipped, after its letter. -/
def skipExponent (cs : List Char) : Except Fault (List Char) :=
  let digits : List Char → Except Fault (List Char)
    | [] => .error (.last .invalidNumber [])
    | c :: cs =>
      if c.isDigit then .ok (cs.dropWhile Char.isDigit)
      else .error (.next .invalidNumber (c :: cs))
  match cs with
  | '+' :: cs => digits cs
  | '-' :: cs => digits cs
  | cs => digits cs

/-- What follows a fraction and an exponent that are skipped. -/
def skipTail : List Char → Except Fault (List Char)
  | '.' :: cs =>
    match cs.dropWhile Char.isDigit with
    | 'e' :: rest => if rest.length + 1 = cs.length then .error (.next .invalidNumber cs)
      else skipExponent rest
    | 'E' :: rest => if rest.length + 1 = cs.length then .error (.next .invalidNumber cs)
      else skipExponent rest
    | rest => if rest.length = cs.length then .error (.next .invalidNumber cs) else .ok rest
  | 'e' :: cs => skipExponent cs
  | 'E' :: cs => skipExponent cs
  | cs => .ok cs

/-- What follows a number that is skipped, after its minus sign. -/
def skipNumber : List Char → Except Fault (List Char)
  | [] => .error (.last .invalidNumber [])
  | c :: cs =>
    if c = '0' then
      match cs with
      | [] => .ok []
      | d :: cs =>
        if d.isDigit then .error (.next .invalidNumber (d :: cs)) else skipTail (d :: cs)
    else if c.isDigit then skipTail (cs.dropWhile Char.isDigit)
    else .error (.next .invalidNumber (c :: cs))

/-- What follows a scalar that is skipped. -/
def skipScalar : List Char → Except Fault (List Char)
  | [] => .error (.next .endInValue [])
  | c :: cs =>
    if c = 'n' then readWord ['u', 'l', 'l'] cs
    else if c = 't' then readWord ['r', 'u', 'e'] cs
    else if c = 'f' then readWord ['a', 'l', 's', 'e'] cs
    else if c = '-' then skipNumber cs
    else if c.isDigit then skipNumber (c :: cs)
    else if c = '"' then skipText 0 cs
    else .error (.next .wantedValue (c :: cs))

/-- Where the value of the next entry starts: in an object a key and a colon are skipped. -/
def skipKey : Bracket → List Char → Except Fault (List Char)
  | .list, cs => .ok cs
  | .object, cs =>
    match skipSpace cs with
    | [] => .error (.next .endInObject [])
    | c :: cs =>
      if c = '"' then (skipText 0 cs).bind readColon else .error (.next .keyNotString (c :: cs))

/-- The faults inside of brackets: the text ends, or no comma follows an entry. -/
def Bracket.endFault : Bracket → Fault
  | .list => .next .endInList []
  | .object => .next .endInObject []

def Bracket.commaFault (cs : List Char) : Bracket → Fault
  | .list => .next .wantedListCommaOrEnd cs
  | .object => .next .wantedObjectCommaOrEnd cs

/-- The character that closes. -/
def Bracket.closing : Bracket → Char
  | .list => ']'
  | .object => '}'

/-- What the skipper does next: skip a value, look at the first entry behind a bracket, or look at
what follows a value. -/
inductive SkipState where
  | value
  | opened
  | behind
  deriving DecidableEq

/-- What follows a value that is skipped, inside the brackets that are open. Each character is
looked at by at most three steps. -/
def skipSteps : (steps : Nat) → SkipState → List Bracket → List Char → Except Fault (List Char)
  | 0, _, _, cs => .error (.next .endInValue cs)
  | steps + 1, .value, brackets, cs =>
    match skipSpace cs with
    | [] => .error (.next .endInValue [])
    | c :: cs =>
      if c = '[' then skipSteps steps .opened (.list :: brackets) cs
      else if c = '{' then skipSteps steps .opened (.object :: brackets) cs
      else
        match skipScalar (c :: cs) with
        | .error fault => .error fault
        | .ok rest => skipSteps steps .behind brackets rest
  | _ + 1, .opened, [], cs => .ok cs
  | steps + 1, .opened, bracket :: brackets, cs =>
    match skipSpace cs with
    | [] => .error bracket.endFault
    | c :: cs =>
      if c = bracket.closing then skipSteps steps .behind brackets cs
      else
        match skipKey bracket (c :: cs) with
        | .error fault => .error fault
        | .ok rest => skipSteps steps .value (bracket :: brackets) rest
  | _ + 1, .behind, [], cs => .ok cs
  | steps + 1, .behind, bracket :: brackets, cs =>
    match skipSpace cs with
    | [] => .error bracket.endFault
    | c :: cs =>
      if c = bracket.closing then skipSteps steps .behind brackets cs
      else if c = ',' then
        match skipKey bracket cs with
        | .error fault => .error fault
        | .ok rest => skipSteps steps .value (bracket :: brackets) rest
      else .error (bracket.commaFault (c :: cs))

/-- A value of no interest. -/
def skipValue (budget : Nat) : Reader Unit := fun cs =>
  (skipSteps (3 * budget) .value [] cs).map fun rest => ((), rest)

/-! ## Objects with fixed fields -/

/-- The fault of a second value for a field: it lies behind the key and the brace that may follow. -/
def duplicateFault (name : String) (cs : List Char) : Fault :=
  match skipSpace cs with
  | '}' :: rest => .last (.duplicateField name) rest
  | rest => .last (.duplicateField name) rest

/-- The value of a field that was not met before. -/
def readField (reader : Reader α) (name : String) (former : Option α) : Reader α := fun cs =>
  match former with
  | some _ => .error (duplicateFault name cs)
  | none => (readColon cs).bind reader

/-- The value of a field of no interest. -/
def skipField (budget : Nat) : Reader Unit := fun cs => (readColon cs).bind (skipValue budget)

/-- The end of a list of fields. -/
def closeList (cs : List Char) : Except Fault (List Char) :=
  match skipSpace cs with
  | [] => .error (.next .endInList [])
  | c :: cs =>
    if c = ']' then .ok cs
    else if c = ',' then
      match skipSpace cs with
      | [] => .error (.next .trailingCharacters [])
      | d :: cs =>
        if d = ']' then .error (.next .trailingComma (d :: cs))
        else .error (.next .trailingCharacters (d :: cs))
    else .error (.next .trailingCharacters (c :: cs))

/-- The next field of a list of fields, if there is one; the closing bracket stays unread. -/
def readNext (first : Bool) (reader : Reader α) : Reader (Option α) := fun cs =>
  match nextItem first cs with
  | .error fault => .error fault
  | .ok (.closed _) => .ok (none, cs)
  | .ok (.entry start) => (reader start).map fun found => (some found.1, found.2)

/-- The fault of a list of fields that is too short: it lies behind the closing bracket. -/
def shortFault (length : Nat) (wanted : String) (cs : List Char) : Fault :=
  match closeList cs with
  | .error _ => .last (.invalidLength length wanted) cs
  | .ok rest => .last (.invalidLength length wanted) rest

/-- An object with fixed fields, or the list of its fields. `members` reads the inside of an object
and `items` the inside of a list without its closing bracket, both one level deeper. -/
def readFieldwise (levels : Nat) (wanted : String)
    (members items : (levels : Nat) → Reader α) : Reader α := fun cs =>
  match skipSpace cs with
  | [] => .error (.next .endInValue [])
  | c :: cs =>
    if c = '{' then
      match levels with
      | 0 => .error (.next .tooDeep (c :: cs))
      | levels + 1 => members levels cs
    else if c = '[' then
      match levels with
      | 0 => .error (.next .tooDeep (c :: cs))
      | levels + 1 => do
        let (found, rest) ← items levels cs
        .ok (found, ← closeList rest)
    else .error (mismatch wanted (c :: cs))

end RecordQuery.Json
