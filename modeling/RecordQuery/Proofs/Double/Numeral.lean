/-
RecordQuery.Proofs.Double.Numeral — the text of a double is a numeral that names it.

The lenient reader of numerals rounds correctly, so it takes the JSON text of a
double for the double itself, of which the reader of JSON may miss the last
bit. Its steps are followed here over any digits with a fraction and an
exponent, written as the printer writes them. Since a double is found again in
its text, no two doubles have one text.

Main statements:
* `Numeral.leading?_written` — written digits are read as they are;
* `FiniteDouble.leading?_jsonChars` — the JSON text of a double names the double;
* `FiniteDouble.jsonChars_injective`.
-/
import RecordQuery.Double.Numeral
import RecordQuery.Proofs.Double.ReadBack
import RecordQuery.Proofs.Json.Double

namespace RecordQuery

open Json (DigitsEnd IsDigits IsPositional exponentChars pointChars)

namespace Numeral

variable {whole fraction digits rest : List Char} {negative : Bool} {exponent : Int} {c : Char}

theorem takeWhile_digits (hdigits : IsDigits digits) (hrest : DigitsEnd rest) :
    (digits ++ rest).takeWhile Char.isDigit = digits := by
  rw [List.takeWhile_append_of_pos hdigits]
  cases rest with
  | nil => simp
  | cons c rest => simp [hrest c rfl]

/-! ## Signs and exponents -/

/-- What begins with a digit has no sign of its own. -/
theorem readSign_digit (hc : c.isDigit = true) (cs : List Char) :
    readSign (c :: cs) = (false, c :: cs) := by
  have hminus := Json.ne_of_isDigit hc (show Char.isDigit '-' = false by decide)
  have hplus := Json.ne_of_isDigit hc (show Char.isDigit '+' = false by decide)
  simp [readSign, hminus, hplus]

theorem readSign_signChars (hc : c.isDigit = true) (cs : List Char) :
    readSign (signChars negative ++ c :: cs) = (negative, c :: cs) := by
  cases negative with
  | true => rfl
  | false => exact readSign_digit hc cs

/-- An exponent with its letter, if there is one. -/
def powerChars : Option Int → List Char
  | none => []
  | some exponent => 'e' :: exponentChars exponent

theorem digitsEnd_powerChars (exponent : Option Int) : DigitsEnd (powerChars exponent) := by
  cases exponent <;> simp [powerChars, DigitsEnd]

theorem readPower_exponentChars (exponent : Int) :
    readPower 'e' (exponentChars exponent) = (exponent, []) := by
  have hend : DigitsEnd [] := Json.numberEnd_nil.digitsEnd
  have hall (k : Nat) : (Nat.toDigits 10 k).takeWhile Char.isDigit = Nat.toDigits 10 k := by
    simpa using takeWhile_digits (Json.isDigits_toDigits k) hend
  have hnone (k : Nat) : (Nat.toDigits 10 k).dropWhile Char.isDigit = [] := by
    simpa using Json.dropWhile_digits (Json.isDigits_toDigits k) hend
  have hvalue (k : Nat) : digitsValue (Nat.toDigits 10 k) = k := Nat.ofDigitChars_ten_toDigits
  have hne (k : Nat) : (Nat.toDigits 10 k).isEmpty = false := by
    simp [Nat.toDigits_ne_nil]
  cases exponent with
  | ofNat k => simp [exponentChars, readPower, readSign, hall, hnone, hvalue, hne]
  | negSucc k =>
    simp [exponentChars, readPower, readSign, hall, hnone, hvalue, hne, Int.negSucc_eq]

theorem readExponent_powerChars (exponent : Option Int) :
    readExponent (powerChars exponent) = (exponent.getD 0, []) := by
  cases exponent with
  | none => rfl
  | some exponent => exact readPower_exponentChars exponent

/-! ## Numerals -/

/-- The fraction behind written digits, and what follows it. -/
theorem readFraction_pointChars (hfraction : IsDigits fraction) (exponent : Option Int) :
    readFraction (pointChars fraction ++ powerChars exponent) = (fraction, powerChars exponent) := by
  have hend := digitsEnd_powerChars exponent
  unfold pointChars
  split
  · rename_i hnil
    subst hnil
    cases exponent <;> rfl
  · show (((fraction ++ powerChars exponent).takeWhile Char.isDigit),
      ((fraction ++ powerChars exponent).dropWhile Char.isDigit)) = _
    rw [takeWhile_digits hfraction hend, Json.dropWhile_digits hfraction hend]

theorem digitsEnd_pointChars (fraction : List Char) (exponent : Option Int) :
    DigitsEnd (pointChars fraction ++ powerChars exponent) := by
  unfold pointChars
  split
  · exact digitsEnd_powerChars exponent
  · exact Json.digitsEnd_cons (by decide)

/-- Written digits, with or without fraction and exponent, are read as they are. -/
theorem leading?_written (hwhole : IsDigits whole) (hne : whole ≠ [])
    (hfraction : IsDigits fraction) (negative : Bool) (exponent : Option Int) :
    leading? (signChars negative ++ (whole ++ (pointChars fraction ++ powerChars exponent))) =
      some (.decimal negative whole fraction (exponent.getD 0), []) := by
  have hend := digitsEnd_pointChars fraction exponent
  obtain ⟨c, more, rfl⟩ := List.exists_cons_of_ne_nil hne
  have hc : c.isDigit = true := hwhole c (List.mem_cons_self ..)
  have hword : infinityWord.isPrefixOf
      (c :: more ++ (pointChars fraction ++ powerChars exponent)) = false := by
    have hI := (Json.ne_of_isDigit hc (show Char.isDigit 'I' = false by decide)).symm
    simp [infinityWord, List.isPrefixOf, hI]
  have hsign : readSign (signChars negative ++
      (c :: more ++ (pointChars fraction ++ powerChars exponent))) =
        (negative, c :: more ++ (pointChars fraction ++ powerChars exponent)) :=
    readSign_signChars hc _
  simp only [leading?, hsign, hword, takeWhile_digits hwhole hend, Json.dropWhile_digits hwhole hend,
    readFraction_pointChars hfraction, readExponent_powerChars, List.isEmpty_cons, Bool.false_and,
    Bool.false_eq_true, if_false]

end Numeral

/-! ## The text of a double -/

/-- The JSON text of a decimal is a numeral of the same value. -/
theorem Decimal.exists_leading?_jsonChars {d : Decimal} (hzero : d.digits = 0 → d.exponent = 0)
    (negative : Bool) :
    ∃ numeral, Numeral.leading? (signChars negative ++ d.jsonChars) = some (numeral, []) ∧
      numeral.toDouble = Double.ofMagnitude? negative d.toMagnitude? := by
  unfold jsonChars
  split
  · rename_i hplace
    obtain ⟨whole, fraction, ⟨heq, hwhole, hfraction, hne, k, hvalue, hexponent⟩, hpart, -⟩ :=
      Json.exists_positional_eq hzero hplace.2
    refine ⟨.decimal negative whole fraction 0, ?_, ?_⟩
    · have h := Numeral.leading?_written hwhole hpart.ne_nil hfraction negative none
      rw [pointChars, if_neg hne] at h
      rw [heq]
      simpa [Numeral.powerChars] using h
    · obtain ⟨digits, exponent⟩ := d
      have hexponent : (0 : Int) - fraction.length + k = exponent := by
        simp only at hexponent
        omega
      simp only [Numeral.toDouble, digitsValue, hvalue, toMagnitude?_mul_pow, hexponent]
  · obtain ⟨c, more, hdigits⟩ : ∃ c more, Nat.toDigits 10 d.digits = c :: more :=
      List.exists_cons_of_ne_nil Nat.toDigits_ne_nil
    have hall : IsDigits (c :: more) := hdigits ▸ Json.isDigits_toDigits d.digits
    have hvalue : Nat.ofDigitChars 10 (c :: more) 0 = d.digits :=
      hdigits ▸ Nat.ofDigitChars_ten_toDigits
    refine ⟨.decimal negative [c] more d.leadingPlace, ?_, ?_⟩
    · rw [Json.scientific_eq hdigits]
      exact Numeral.leading?_written (fun e he => hall e (by simp [List.mem_singleton.1 he]))
        (by simp) (fun e he => hall e (List.mem_cons_of_mem _ he)) negative
        (some d.leadingPlace)
    · have hexponent : d.leadingPlace - more.length = d.exponent := by
        rw [Json.leadingPlace_eq hdigits]
        omega
      simp only [Numeral.toDouble, digitsValue, List.singleton_append, hvalue, hexponent]

namespace FiniteDouble

/-- The JSON text of a double is a numeral, and this names the double. -/
theorem leading?_jsonChars (x : FiniteDouble) :
    ∃ numeral, Numeral.leading? x.jsonChars = some (numeral, []) ∧
      numeral.toDouble = .finite x := by
  obtain ⟨numeral, hread, hvalue⟩ := Decimal.exists_leading?_jsonChars
    (d := x.magnitude.shortest .toEven) Magnitude.exponent_shortest_of_digits_eq_zero x.negative
  refine ⟨numeral, hread, ?_⟩
  rw [hvalue, Magnitude.toMagnitude?_shortest]
  rfl

/-- No two doubles have one JSON text. -/
theorem jsonChars_injective : Function.Injective jsonChars := by
  intro x y h
  obtain ⟨numeral, hread, hx⟩ := leading?_jsonChars x
  obtain ⟨other, hother, hy⟩ := leading?_jsonChars y
  rw [h, hother] at hread
  obtain rfl : other = numeral := congrArg Prod.fst (Option.some.inj hread)
  exact Double.finite.inj (hx.symm.trans hy)

end FiniteDouble

end RecordQuery
