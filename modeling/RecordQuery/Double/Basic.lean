/-
RecordQuery.Double.Basic — double-precision numbers as exact values.

A `Double` is no number, one of two infinities, or a finite value: a sign and a
magnitude in units of 2^-1074. Comparison is exact comparison of these values,
so the two zeros are equal and "no number" compares with nothing. The bits of
the interchange format are read and written exactly.

Main definitions:
* `FiniteDouble`, `Double`;
* `Double.compare?`;
* `Double.ofInt`, `Double.ofBits`, `Double.bits?`.
-/
import RecordQuery.Double.Magnitude

namespace RecordQuery

/-- A finite double: zero has both signs. -/
structure FiniteDouble where
  negative : Bool
  magnitude : Magnitude
  deriving DecidableEq

/-- A double-precision number. -/
inductive Double where
  | nan
  | infinity (negative : Bool)
  | finite (value : FiniteDouble)
  deriving DecidableEq

namespace FiniteDouble

/-- The value in units, with its sign. -/
def signedUnits (x : FiniteDouble) : Int :=
  if x.negative then -(x.magnitude.units : Int) else x.magnitude.units

instance : Inhabited FiniteDouble := ⟨false, .zero⟩

end FiniteDouble

namespace Double

instance : Inhabited Double := ⟨.nan⟩

/-- A double from a sign and a magnitude, where nothing stands for a magnitude out of range. -/
def ofMagnitude? (negative : Bool) : Option Magnitude → Double
  | some magnitude => .finite ⟨negative, magnitude⟩
  | none => .infinity negative

/-- The double nearest to an integer; zero is positive. -/
def ofInt (n : Int) : Double :=
  ofMagnitude? (decide (n < 0)) (Magnitude.ofNat? n.natAbs)

/-- Order by value. The two zeros are equal; what is no number compares with nothing. -/
def compare? : Double → Double → Option Ordering
  | .nan, _ => none
  | _, .nan => none
  | .infinity true, .infinity true => some .eq
  | .infinity true, _ => some .lt
  | _, .infinity true => some .gt
  | .infinity false, .infinity false => some .eq
  | .infinity false, _ => some .gt
  | _, .infinity false => some .lt
  | .finite x, .finite y => some (compare x.signedUnits y.signedUnits)

/-- The double with the given 64 bits of the interchange format. -/
def ofBits (bits : UInt64) : Double :=
  let negative := 2 ^ 63 ≤ bits.toNat
  let place := bits.toNat % 2 ^ 63
  match Magnitude.ofPlace? place with
  | some magnitude => .finite ⟨negative, magnitude⟩
  | none => if place = 2047 * 2 ^ 52 then .infinity negative else .nan

/-- The 64 bits of the interchange format; nothing for what is no number, which has many. -/
def bits? : Double → Option UInt64
  | .nan => none
  | .infinity negative => some (signBit negative + UInt64.ofNat (2047 * 2 ^ 52))
  | .finite x => some (signBit x.negative + UInt64.ofNat x.magnitude.place)
where
  /-- The sign stands above the other 63 bits. -/
  signBit (negative : Bool) : UInt64 := if negative then UInt64.ofNat (2 ^ 63) else 0

end Double

end RecordQuery
