/-
RecordQuery.Double.Text — how doubles are written.

Two forms are in use. In JSON a double keeps a fraction or an exponent, so that
it cannot be taken for an integer: positional from 10^-5 up to 10^16, otherwise
scientific with a signed exponent. Where text is compared and searched, a whole
number is written as its digits alone and an exponent never appears.

Main definitions:
* `Decimal.positional`, `Decimal.scientific`;
* `FiniteDouble.jsonChars`;
* `Double.text`.
-/
import RecordQuery.Double.Decimal

namespace RecordQuery

namespace Decimal

/-- `count` zero digits. -/
def zeros (count : Nat) : List Char := List.replicate count '0'

/-- The digits in positional notation. A number without fraction ends with `wholeEnd`. -/
def positional (d : Decimal) (wholeEnd : List Char) : List Char :=
  let digits := Nat.toDigits 10 d.digits
  match d.exponent with
  | .ofNat k => digits ++ zeros k ++ wholeEnd
  | .negSucc k =>
    let places := k + 1
    if digits.length ≤ places then
      '0' :: '.' :: (zeros (places - digits.length) ++ digits)
    else
      digits.take (digits.length - places) ++ '.' :: digits.drop (digits.length - places)

/-- One digit, the other digits behind a point, and the exponent with its sign. -/
def scientific (d : Decimal) : List Char :=
  let digits := Nat.toDigits 10 d.digits
  let mantissa := if digits.length ≤ 1 then digits else digits.take 1 ++ '.' :: digits.drop 1
  let exponent := match d.leadingPlace with
    | .ofNat k => '+' :: Nat.toDigits 10 k
    | .negSucc k => '-' :: Nat.toDigits 10 (k + 1)
  mantissa ++ 'e' :: exponent

end Decimal

/-- A minus sign where it is due. -/
def signChars (negative : Bool) : List Char := if negative then ['-'] else []

/-- The JSON text of a double: positional when the leading digit stands from the fifth decimal
place up to the sixteenth digit before the point. -/
def FiniteDouble.jsonChars (x : FiniteDouble) : List Char :=
  let d := x.magnitude.shortest .toEven
  let body :=
    if -5 ≤ d.leadingPlace ∧ d.leadingPlace < 16 then d.positional ['.', '0'] else d.scientific
  signChars x.negative ++ body

/-- A finite magnitude without exponent: whole numbers below 10^21 in full, anything else by the
fewest digits that read back. -/
def Magnitude.plainChars (x : Magnitude) : List Char :=
  if x.isIntegral && decide (x.units < 10 ^ 21 * unitsPerOne) then Nat.toDigits 10 x.toNat
  else (x.shortest .up).positional []

/-- The text of a double that display, comparison with text, and search use. Zero has no sign. -/
def Double.text : Double → String
  | .nan => "NaN"
  | .infinity negative => String.ofList (signChars negative ++ "Infinity".toList)
  | .finite x =>
    if x.magnitude.units = 0 then "0"
    else String.ofList (signChars x.negative ++ x.magnitude.plainChars)

end RecordQuery
