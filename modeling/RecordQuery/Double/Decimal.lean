/-
RecordQuery.Double.Decimal — decimal numbers, correct rounding, fewest digits.

A `Decimal` is read as the double nearest to it (`Decimal.toMagnitude?`), and a
double is written as the decimal with the fewest digits that reads back to it
(`Magnitude.shortest`). The search tries one digit, then two, and so on: on the
grid of decimals with that many digits only the two neighbours of the value can
read back, and of two that do the nearer is taken. The exact decimal expansion,
which every double has, closes the search, so the result always reads back.
-/
import RecordQuery.Double.Basic

namespace RecordQuery

/-- The number `digits * 10 ^ exponent`. -/
structure Decimal where
  digits : Nat
  exponent : Int
  deriving DecidableEq, Repr

/-- How many decimal digits a number is written with; zero is written with one. -/
def digitCount (n : Nat) : Nat := (Nat.toDigits 10 n).length

namespace Decimal

/-- The place of the leading digit: 0 for units, 1 for tens, -1 for tenths. -/
def leadingPlace (d : Decimal) : Int := d.exponent + digitCount d.digits - 1

/-- The nearest double by exact arithmetic; nothing beyond the largest double. -/
def roundExactly (digits : Nat) : Int → Option Magnitude
  | .ofNat k => Magnitude.ofRatio? (digits * 10 ^ k * unitsPerOne) 1
  | .negSucc k => Magnitude.ofRatio? (digits * unitsPerOne) (10 ^ (k + 1))

/-- The nearest double; nothing beyond the largest double. Numbers far outside the range are
decided by their leading place, before any power of ten is computed. -/
def toMagnitude? (d : Decimal) : Option Magnitude :=
  if d.digits = 0 then some .zero
  else if 400 < d.exponent then none
  else if d.leadingPlace < -400 then some .zero
  else roundExactly d.digits d.exponent

/-- The same number without trailing zero digits, at most `budget` of them. -/
def dropZeros : Nat → Decimal → Decimal
  | 0, d => d
  | budget + 1, d =>
    if d.digits % 10 = 0 then dropZeros budget ⟨d.digits / 10, d.exponent + 1⟩ else d

/-- The same number without trailing zero digits. -/
def trim (d : Decimal) : Decimal :=
  if d.digits = 0 then ⟨0, 0⟩ else dropZeros (digitCount d.digits) d

end Decimal

/-- Which neighbour a value half way between two equally short decimals takes. -/
inductive Tie where
  | toEven
  | up
  deriving DecidableEq

/-- The choice between `low` and `low + 1` when both are equally near. -/
def Tie.choose : Tie → Nat → Nat
  | .toEven, low => low + low % 2
  | .up, low => low + 1

namespace Magnitude

/-- The exact decimal expansion: a unit is 5^1074 times 10^-1074. -/
def exactDecimal (x : Magnitude) : Decimal := ⟨x.units * 5 ^ 1074, -1074⟩

/-- The place of the leading decimal digit of a value other than zero: one unit exceeds 10^-324. -/
def leadingPlace (x : Magnitude) : Int :=
  (digitCount (x.units * 10 ^ 324 / unitsPerOne) : Int) - 325

/-- The value divided by `10 ^ exponent`, as numerator and denominator. -/
def overPower (x : Magnitude) : Int → Nat × Nat
  | .ofNat k => (x.units, unitsPerOne * 10 ^ k)
  | .negSucc k => (x.units * 10 ^ (k + 1), unitsPerOne)

/-- The decimal reads back to the double. -/
def isReadFrom (x : Magnitude) (d : Decimal) : Bool := d.toMagnitude? == some x

/-- The multiple of `10 ^ exponent` that reads back to the value, the nearer one of two. -/
def onGrid (x : Magnitude) (tie : Tie) (exponent : Int) : Option Decimal :=
  let ratio := x.overPower exponent
  let low := ratio.1 / ratio.2
  let rest := 2 * (ratio.1 % ratio.2)
  let nearer := if rest < ratio.2 then low else if ratio.2 < rest then low + 1 else tie.choose low
  if x.isReadFrom ⟨low, exponent⟩ then
    if x.isReadFrom ⟨low + 1, exponent⟩ then some ⟨nearer, exponent⟩ else some ⟨low, exponent⟩
  else if x.isReadFrom ⟨low + 1, exponent⟩ then some ⟨low + 1, exponent⟩
  else none

/-- The decimal with the fewest digits that reads back to the double, the nearest one of those. -/
def shortest (x : Magnitude) (tie : Tie) : Decimal :=
  let onSomeGrid := (List.range 17).findSome? fun (more : Nat) =>
    x.onGrid tie (x.leadingPlace - (more : Int))
  (onSomeGrid.getD x.exactDecimal).trim

end Magnitude

end RecordQuery
