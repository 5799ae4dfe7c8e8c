/-
RecordQuery.Sample.Calendar — days of the Gregorian calendar.

Days are counted from the first of January of the year 0, also before it. A day
is found again by its year, guessed from the mean length of a year and put
right by at most one, and then by going through the months.

Main definitions:
* `Date`, `Date.dayNumber`, `Date.ofDayNumber`;
* `Date.daysBefore`, which stops at the first day of the calendar;
* `Date.text`.
-/

namespace RecordQuery

/-- A day of the Gregorian calendar, continued into the past. -/
structure Date where
  year : Int
  month : Nat
  day : Nat
  deriving DecidableEq, Repr

namespace Date

/-- The year has a twenty-ninth of February. -/
def isLeapYear (year : Int) : Bool := year % 4 = 0 ∧ (year % 100 ≠ 0 ∨ year % 400 = 0)

/-- The days between the first of January of the year 0 and that of another year. -/
def yearStart (year : Int) : Int :=
  365 * year + (year + 3) / 4 - (year + 99) / 100 + (year + 399) / 400

/-- The lengths of the months of a year. -/
def monthLengths (year : Int) : List Nat :=
  [31, if isLeapYear year then 29 else 28, 31, 30, 31, 30, 31, 31, 30, 31, 30, 31]

/-- The number of a day. -/
def dayNumber (date : Date) : Int :=
  yearStart date.year
    + (((monthLengths date.year).take (date.month - 1)).foldl (· + ·) 0 + (date.day - 1) : Nat)

/-- Month and day of the day that comes `days` after the first of a month. -/
def inMonths : (month : Nat) → (lengths : List Nat) → (days : Nat) → Nat × Nat
  | month, [], days => (month, days + 1)
  | month, length :: lengths, days =>
    if days < length then (month, days + 1) else inMonths (month + 1) lengths (days - length)

/-- The year of a day: 400 years have 146097 days. -/
def yearOf (number : Int) : Int :=
  let guess := number * 400 / 146097
  if yearStart (guess + 1) ≤ number then guess + 1
  else if yearStart guess ≤ number then guess
  else guess - 1

/-- The day with a number. -/
def ofDayNumber (number : Int) : Date :=
  let year := yearOf number
  let found := inMonths 1 (monthLengths year) (number - yearStart year).toNat
  ⟨year, found.1, found.2⟩

/-- The first day that dates reach back to. -/
def first : Date := ⟨-262143, 1, 1⟩

/-- The day a number of days earlier, or the first day. -/
def daysBefore (date : Date) (days : Nat) : Date :=
  let number := date.dayNumber - days
  if number < first.dayNumber then first else ofDayNumber number

/-- A number in at least `width` digits. -/
def padded (width n : Nat) : List Char :=
  let digits := Nat.toDigits 10 n
  List.replicate (width - digits.length) '0' ++ digits

/-- A year in four digits; beyond these years with a sign and at least four digits. -/
def yearChars (year : Int) : List Char :=
  if 0 ≤ year ∧ year ≤ 9999 then padded 4 year.toNat
  else (if year < 0 then '-' else '+') :: padded 4 year.natAbs

/-- A date as year, month and day. -/
def text (date : Date) : String :=
  String.ofList (yearChars date.year ++ '-' :: (padded 2 date.month ++ '-' :: padded 2 date.day))

end Date

end RecordQuery
