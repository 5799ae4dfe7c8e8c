/-
RecordQuery.Text.Natural — whole numbers typed by a user.

A number is one or more decimal digits, with a plus sign in front or without,
and fits in 64 bits.
-/

namespace RecordQuery

/-- The numbers that can be typed are smaller than this. -/
def naturalLimit : Nat := UInt64.size

/-- The text without a plus sign in front. -/
def dropPlus : List Char → List Char
  | '+' :: cs => cs
  | cs => cs

/-- The number that a text spells. -/
def readNatural? (text : String) : Option Nat :=
  let digits := dropPlus text.toList
  if digits.isEmpty || !digits.all Char.isDigit then none
  else
    let number := Nat.ofDigitChars 10 digits 0
    if number < naturalLimit then some number else none

end RecordQuery
