/-
RecordQuery.Sample.Random — a small random number generator.

The state is one 64-bit word. A step adds an odd constant and multiplies the
new state with a mask of itself to 128 bits; the draw is the exclusive or of
the two halves. Numbers below a bound and fractions are drawn without bias by
drawing again, at most as often as there are states.

Main definitions:
* `Random`, `Random.next`, `Random.below`, `Random.fraction`, `Random.bytes`;
* `Random.identifier`.
-/
import RecordQuery.Double.Decimal

namespace RecordQuery

/-- The state of the generator. -/
structure Random where
  state : UInt64
  deriving DecidableEq

namespace Random

/-- One step: a 64-bit draw and the next state. -/
def next (random : Random) : UInt64 × Random :=
  let state := random.state + 0x2d358dccaa6c78a5
  let product := state.toNat * (state ^^^ 0x8bb84b93962eacc9).toNat
  (UInt64.ofNat product ^^^ UInt64.ofNat (product / 2 ^ 64), ⟨state⟩)

/-- The number of states, after which draws repeat. -/
def period : Nat := 2 ^ 64

/-- A number below `bound` from 32 random bits: the whole part of their share of the bound. The
draws whose remainder would favour some numbers are drawn again. -/
def belowWithin (bound : Nat) : (draws : Nat) → Random → Nat × Random
  | 0, random => (0, random)
  | draws + 1, random =>
    let (word, random) := random.next
    let product := (word.toNat % 2 ^ 32) * bound
    if product % 2 ^ 32 < (2 ^ 32 - bound) % bound then belowWithin bound draws random
    else (product / 2 ^ 32, random)

/-- A number below a bound that is positive and at most 2^32. -/
def below (bound : Nat) (random : Random) : Nat × Random := belowWithin bound period random

/-- A fraction below one: 63 random bits as a double, divided by 2^63. A double that is rounded up
to one is drawn again. -/
def fractionWithin : (draws : Nat) → Random → Magnitude × Random
  | 0, random => (.zero, random)
  | draws + 1, random =>
    let (word, random) := random.next
    let bits := (Magnitude.ofNat? (word.toNat / 2)).getD .zero
    match Magnitude.ofRatio? bits.units (2 ^ 63) with
    | some value =>
      if unitsPerOne ≤ value.units then fractionWithin draws random else (value, random)
    | none => fractionWithin draws random

/-- A fraction below one. -/
def fraction (random : Random) : Magnitude × Random := fractionWithin period random

/-- The eight bytes of a word, the lowest first. -/
def wordBytes (word : UInt64) : List Nat :=
  (List.range 8).map fun i => word.toNat / 2 ^ (8 * i) % 256

/-- Sixteen random bytes. -/
def bytes (random : Random) : List Nat × Random :=
  let (low, random) := random.next
  let (high, random) := random.next
  (wordBytes low ++ wordBytes high, random)

/-- The two hexadecimal digits of a byte. -/
def byteDigits (byte : Nat) : List Char := [Nat.digitChar (byte / 16), Nat.digitChar (byte % 16)]

/-- The text of an identifier: five groups of hexadecimal digits. -/
def identifierChars (bytes : List Nat) : List Char :=
  let group (start length : Nat) := ((bytes.drop start).take length).flatMap byteDigits
  ['-'].intercalate [group 0 4, group 4 2, group 6 2, group 8 2, group 10 6]

/-- Sixteen bytes with the marks of a random identifier: version 4 and the variant bits 10. -/
def markRandom (bytes : List Nat) : List Nat :=
  (bytes.modify 6 fun b => 0x40 + b % 16).modify 8 fun b => 0x80 + b % 64

/-- A random identifier. -/
def identifier (random : Random) : String × Random :=
  let (bytes, random) := random.bytes
  (String.ofList (identifierChars (markRandom bytes)), random)

end Random

end RecordQuery
