/-
RecordQuery.Double.Numeral — the number at the start of a text.

Text typed into a rule is read leniently: blanks in front are skipped, the
longest numeral at the start counts, and what follows it is ignored. A numeral
is an optional sign and then `Infinity`, or digits with an optional fraction and
an optional exponent; at least one digit stands before or behind the point. A
text that starts with no numeral is no number.

Main definitions:
* `Numeral` and its value `Numeral.toDouble`;
* `Numeral.leading?` — the longest numeral a list of characters starts with;
* `Double.ofText`.
-/
import RecordQuery.Double.Decimal
import RecordQuery.Text.Blank

namespace RecordQuery

/-- A numeral as written. -/
inductive Numeral where
  | infinity (negative : Bool)
  | decimal (negative : Bool) (whole fraction : List Char) (exponent : Int)
  deriving DecidableEq

/-- The number that a list of digits names. -/
def digitsValue (digits : List Char) : Nat := Nat.ofDigitChars 10 digits 0

namespace Numeral

/-- The double nearest to the number named; beyond the largest double it is an infinity. -/
def toDouble : Numeral → Double
  | .infinity negative => .infinity negative
  | .decimal negative whole fraction exponent =>
    Double.ofMagnitude? negative
      (Decimal.toMagnitude? ⟨digitsValue (whole ++ fraction), exponent - fraction.length⟩)

/-- An optional sign: whether it is a minus, and what follows. -/
def readSign : List Char → Bool × List Char
  | '-' :: cs => (true, cs)
  | '+' :: cs => (false, cs)
  | cs => (false, cs)

/-- The digits behind a point, if there is a point. -/
def readFraction : List Char → List Char × List Char
  | '.' :: cs => (cs.takeWhile Char.isDigit, cs.dropWhile Char.isDigit)
  | cs => ([], cs)

/-- The digits of an exponent, behind its letter. -/
def readPower (letter : Char) (cs : List Char) : Int × List Char :=
  let sign := readSign cs
  let digits := sign.2.takeWhile Char.isDigit
  let size : Int := digitsValue digits
  if digits.isEmpty then (0, letter :: cs)
  else (if sign.1 then -size else size, sign.2.dropWhile Char.isDigit)

/-- An exponent, if a letter is followed by at least one digit; 0 otherwise. -/
def readExponent : List Char → Int × List Char
  | 'e' :: cs => readPower 'e' cs
  | 'E' :: cs => readPower 'E' cs
  | cs => (0, cs)

/-- The characters that spell an infinite numeral. -/
def infinityWord : List Char := ['I', 'n', 'f', 'i', 'n', 'i', 't', 'y']

/-- The longest numeral the characters start with, and the rest. -/
def leading? (cs : List Char) : Option (Numeral × List Char) :=
  let sign := readSign cs
  if infinityWord.isPrefixOf sign.2 then
    some (.infinity sign.1, sign.2.drop infinityWord.length)
  else
    let whole := sign.2.takeWhile Char.isDigit
    let fraction := readFraction (sign.2.dropWhile Char.isDigit)
    if whole.isEmpty && fraction.1.isEmpty then none
    else
      let exponent := readExponent fraction.2
      some (.decimal sign.1 whole fraction.1 exponent.1, exponent.2)

end Numeral

/-- The number a text starts with, after blanks; no number if it starts with none. -/
def Double.ofText (text : String) : Double :=
  match Numeral.leading? (trimStart text.toList) with
  | some (numeral, _) => numeral.toDouble
  | none => .nan

end RecordQuery
