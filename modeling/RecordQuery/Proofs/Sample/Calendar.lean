/-
RecordQuery.Proofs.Sample.Calendar — the days of the calendar are numbered in order.

A year begins where the last one ends (`yearStart_succ`), and so does a month,
so a day has a number between the first of its year and the first of the next.
Two days are in the order of their numbers, and the day that is found for a
number has this number. Going back some days is then subtraction, down to the
first day of the calendar.

Main definitions:
* `Date.IsDay` — the date is a day of the calendar;
* `Date.Precedes` — by year, month and day.

Main statements:
* `Date.precedes_iff` — the order of days is that of their numbers;
* `Date.isDay_ofDayNumber`, `Date.dayNumber_ofDayNumber` — the day with a number;
* `Date.dayNumber_daysBefore` — the day some days earlier.
-/
import Mathlib.Algebra.GroupWithZero.Nat
import RecordQuery.Sample.Calendar

namespace RecordQuery.Date

/-- The date is a day of the calendar: its month has so many days. -/
structure IsDay (date : Date) : Prop where
  month_pos : 1 ≤ date.month
  day_pos : 1 ≤ date.day
  day_le : ∃ length, (monthLengths date.year)[date.month - 1]? = some length ∧ date.day ≤ length

/-- The first day comes before the second. -/
def Precedes (first second : Date) : Prop :=
  first.year < second.year ∨ first.year = second.year ∧
    (first.month < second.month ∨ first.month = second.month ∧ first.day < second.day)

variable {date first second : Date}

theorem precedes_or_eq_or_precedes (first second : Date) :
    first.Precedes second ∨ first = second ∨ second.Precedes first := by
  obtain ⟨year, month, day⟩ := first
  obtain ⟨year', month', day'⟩ := second
  simp only [Precedes, Date.mk.injEq]
  omega

/-! ## Years -/

/-- A year begins where the last one ends. -/
theorem yearStart_succ (year : Int) :
    yearStart (year + 1) = yearStart year + if isLeapYear year then 366 else 365 := by
  unfold yearStart isLeapYear
  split <;> simp_all <;> omega

theorem yearStart_mono {year year' : Int} (h : year ≤ year') : yearStart year ≤ yearStart year' := by
  unfold yearStart
  omega

/-- The months fill their year. -/
theorem yearStart_add_sum (year : Int) :
    yearStart year + ((monthLengths year).sum : Nat) = yearStart (year + 1) := by
  rw [yearStart_succ]
  unfold monthLengths
  split <;> simp

/-- The mean year is off by less than a year: the day lies behind the start of the year before the
one guessed, and before the end of the year after it. -/
theorem yearStart_guess {number guess : Int} (h : guess = number * 400 / 146097) :
    yearStart (guess - 1) ≤ number ∧ number < yearStart (guess + 1 + 1) := by
  unfold yearStart
  omega

/-- A day lies in the year that is found for it. -/
theorem yearOf_spec (number : Int) :
    yearStart (yearOf number) ≤ number ∧ number < yearStart (yearOf number + 1) := by
  obtain ⟨hbefore, hafter⟩ := yearStart_guess (Eq.refl (number * 400 / 146097))
  simp only [yearOf]
  split
  · rename_i hnext
    exact ⟨hnext, hafter⟩
  · rename_i hnext
    split
    · rename_i hguess
      exact ⟨hguess, Int.lt_of_not_ge hnext⟩
    · rename_i hguess
      rw [Int.sub_add_cancel]
      exact ⟨hbefore, Int.lt_of_not_ge hguess⟩

/-! ## Months -/

/-- The days before a month and those in it up to some day are among the days of all months. -/
theorem sum_take_add_le {lengths : List Nat} {k length : Nat} (h : lengths[k]? = some length) :
    (lengths.take k).sum + length ≤ lengths.sum := by
  induction lengths generalizing k with
  | nil => simp at h
  | cons first rest ih =>
    cases k with
    | zero =>
      obtain rfl : first = length := by simpa using h
      simp
    | succ k =>
      have := ih h
      simp only [List.take_succ_cons, List.sum_cons]
      omega

/-- The days before a later month include those of an earlier one. -/
theorem sum_take_add_le_sum_take {lengths : List Nat} {k later length : Nat}
    (h : lengths[k]? = some length) (hlater : k < later) :
    (lengths.take k).sum + length ≤ (lengths.take later).sum := by
  have hmin : min k later = k := by omega
  have htake : (lengths.take later)[k]? = some length := by
    rw [List.getElem?_take_of_lt hlater, h]
  have := sum_take_add_le htake
  rwa [List.take_take, hmin] at this

/-- Going through the months ends in the month in which so many days have passed, at the next. -/
theorem inMonths_spec {lengths : List Nat} {days : Nat} (month : Nat) (h : days < lengths.sum) :
    ∃ k length rest, inMonths month lengths days = (month + k, rest + 1) ∧
      lengths[k]? = some length ∧ rest < length ∧ (lengths.take k).sum + rest = days := by
  induction lengths generalizing month days with
  | nil => simp at h
  | cons length lengths ih =>
    unfold inMonths
    split
    · rename_i hlt
      exact ⟨0, length, days, rfl, rfl, hlt, by simp⟩
    · rename_i hge
      rw [List.sum_cons] at h
      obtain ⟨k, last, rest, hfound, hlast, hrest, hsum⟩ :=
        ih (month + 1) (show days - length < lengths.sum by omega)
      refine ⟨k + 1, last, rest, ?_, hlast, hrest, ?_⟩
      · rw [hfound, Nat.add_assoc, Nat.add_comm 1]
      · rw [List.take_succ_cons, List.sum_cons]
        omega

/-! ## Days -/

/-- The days of a year before a date. -/
def dayOfYear (date : Date) : Nat :=
  ((monthLengths date.year).take (date.month - 1)).sum + (date.day - 1)

theorem dayNumber_eq (date : Date) :
    date.dayNumber = yearStart date.year + (date.dayOfYear : Nat) := by
  rw [dayNumber, dayOfYear, List.sum_eq_foldl]

theorem IsDay.dayOfYear_lt (h : date.IsDay) :
    date.dayOfYear < (monthLengths date.year).sum := by
  obtain ⟨length, hlength, hle⟩ := h.day_le
  have hpos := h.day_pos
  have hsum := sum_take_add_le hlength
  unfold dayOfYear
  omega

/-- A day lies in its year. -/
theorem IsDay.dayNumber_bounds (h : date.IsDay) :
    yearStart date.year ≤ date.dayNumber ∧ date.dayNumber < yearStart (date.year + 1) := by
  have hlt := h.dayOfYear_lt
  have hsum := yearStart_add_sum date.year
  rw [dayNumber_eq]
  omega

/-- A day that comes before another has a smaller number. -/
theorem IsDay.dayNumber_lt (hfirst : first.IsDay) (hsecond : second.IsDay)
    (h : first.Precedes second) : first.dayNumber < second.dayNumber := by
  rcases h with hyear | ⟨hyear, hmonth | ⟨hmonth, hday⟩⟩
  · have hstart := yearStart_mono (show first.year + 1 ≤ second.year by omega)
    have hbefore := hfirst.dayNumber_bounds.2
    have hafter := hsecond.dayNumber_bounds.1
    omega
  · obtain ⟨length, hlength, hle⟩ := hfirst.day_le
    have hpos := hfirst.day_pos
    have hmonthPos := hfirst.month_pos
    have hsum := sum_take_add_le_sum_take hlength
      (show first.month - 1 < second.month - 1 by omega)
    rw [dayNumber_eq, dayNumber_eq, dayOfYear, dayOfYear, ← hyear]
    omega
  · have hpos := hfirst.day_pos
    rw [dayNumber_eq, dayNumber_eq, dayOfYear, dayOfYear, ← hyear, ← hmonth]
    omega

/-- Days are in the order of their numbers. -/
theorem precedes_iff (hfirst : first.IsDay) (hsecond : second.IsDay) :
    first.Precedes second ↔ first.dayNumber < second.dayNumber := by
  refine ⟨hfirst.dayNumber_lt hsecond, fun h => ?_⟩
  rcases precedes_or_eq_or_precedes first second with hprecedes | rfl | hprecedes
  · exact hprecedes
  · omega
  · have := hsecond.dayNumber_lt hfirst hprecedes
    omega

/-! ## The day with a number -/

theorem ofDayNumber_spec (number : Int) :
    (ofDayNumber number).IsDay ∧ (ofDayNumber number).dayNumber = number := by
  obtain ⟨hstart, hend⟩ := yearOf_spec number
  have hsum := yearStart_add_sum (yearOf number)
  have hlt : (number - yearStart (yearOf number)).toNat < (monthLengths (yearOf number)).sum := by
    omega
  obtain ⟨k, length, rest, hfound, hlength, hrest, hdays⟩ := inMonths_spec 1 hlt
  have hdate : ofDayNumber number = ⟨yearOf number, 1 + k, rest + 1⟩ := by
    simp only [ofDayNumber, hfound]
  have hplace : 1 + k - 1 = k := by omega
  rw [hdate]
  constructor
  · exact ⟨Nat.le_add_right 1 k, Nat.le_add_left 1 rest, length, by rw [hplace]; exact hlength, hrest⟩
  · rw [dayNumber_eq, dayOfYear]
    simp only [hplace, Nat.add_sub_cancel]
    omega

/-- There is a day for every number, -/
theorem isDay_ofDayNumber (number : Int) : (ofDayNumber number).IsDay := (ofDayNumber_spec number).1

/-- which has this number. -/
theorem dayNumber_ofDayNumber (number : Int) : (ofDayNumber number).dayNumber = number :=
  (ofDayNumber_spec number).2

/-! ## Going back -/

theorem isDay_first : Date.first.IsDay := ⟨by decide, by decide, 31, rfl, by decide⟩

theorem isDay_daysBefore (date : Date) (days : Nat) : (date.daysBefore days).IsDay := by
  simp only [daysBefore]
  split
  · exact isDay_first
  · exact isDay_ofDayNumber _

/-- Days that are gone back are subtracted, down to the first day. -/
theorem dayNumber_daysBefore (date : Date) (days : Nat) :
    (date.daysBefore days).dayNumber = max Date.first.dayNumber (date.dayNumber - days) := by
  simp only [daysBefore]
  split
  · omega
  · rw [dayNumber_ofDayNumber]
    omega

/-- Farther back lies no later day. -/
theorem not_precedes_daysBefore (date : Date) {days more : Nat} (h : days ≤ more) :
    ¬ (date.daysBefore days).Precedes (date.daysBefore more) := by
  rw [precedes_iff (isDay_daysBefore date days) (isDay_daysBefore date more), dayNumber_daysBefore,
    dayNumber_daysBefore]
  omega

/-- The year of an earlier day is no later, unless the calendar does not reach back so far. -/
theorem year_daysBefore_le (hdate : date.IsDay) (days : Nat) :
    (date.daysBefore days).year ≤ max Date.first.year date.year := by
  have hnot : ¬ max Date.first.year date.year < (date.daysBefore days).year := by
    intro hlt
    have hfirst := (precedes_iff isDay_first (isDay_daysBefore date days)).1 (.inl (by omega))
    have hlate := (precedes_iff hdate (isDay_daysBefore date days)).1 (.inl (by omega))
    rw [dayNumber_daysBefore] at hfirst hlate
    omega
  omega

end RecordQuery.Date
