/-
RecordQuery.Proofs.Json.Number — what the reader makes of written digits.

A written number is a whole part, perhaps a fraction, and perhaps an exponent.
The reader gathers digits as long as they fit into 64 bits; the lemmas on
`gather` say how far it gets, and the lemmas after them follow the reader from part to
part up to the point where the gathered number is scaled. What follows the
number must not look like more of it (`NumberEnd`).

Main statements:
* `gather_of_le`, `gather_number_mul_le` — what is gathered, and what that leaves out;
* `readNumber_whole`, `readFraction_digits`, `readExponent_exponentChars` — the parts of a number;
* `readNumber_natAbs` — a written whole number is read as itself.
-/
import RecordQuery.Json.Printer
import RecordQuery.Json.Reader

namespace RecordQuery.Json

variable {number power : Nat} {digits rest cs : List Char} {negative down : Bool}

/-! ## Digits -/

/-- All characters are decimal digits. -/
def IsDigits (digits : List Char) : Prop := ∀ c ∈ digits, c.isDigit = true

/-- The text does not go on with a digit. -/
def DigitsEnd (rest : List Char) : Prop := ∀ c ∈ rest.head?, c.isDigit = false

/-- The text does not go on with anything that a number could go on with. -/
def NumberEnd (rest : List Char) : Prop :=
  ∀ c ∈ rest.head?, c.isDigit = false ∧ c ≠ '.' ∧ c ≠ 'e' ∧ c ≠ 'E'

theorem NumberEnd.digitsEnd (h : NumberEnd rest) : DigitsEnd rest := fun c hc => (h c hc).1

theorem numberEnd_nil : NumberEnd [] := by simp [NumberEnd]

/-- No number goes on at a character that is no part of one. -/
theorem numberEnd_cons {c : Char} (hc : c.isDigit = false ∧ c ≠ '.' ∧ c ≠ 'e' ∧ c ≠ 'E')
    (rest : List Char) : NumberEnd (c :: rest) := by
  intro d hd
  obtain rfl : c = d := Option.some.inj hd
  exact hc

theorem isDigits_toDigits (n : Nat) : IsDigits (Nat.toDigits 10 n) := fun _ hc =>
  Nat.isDigit_of_mem_toDigits (by decide) (by decide) hc

theorem ne_of_isDigit {c d : Char} (hc : c.isDigit = true) (hd : d.isDigit = false) : c ≠ d := by
  rintro rfl
  rw [hc] at hd
  cases hd

theorem dropWhile_digits (hdigits : IsDigits digits) (hrest : DigitsEnd rest) :
    (digits ++ rest).dropWhile Char.isDigit = rest := by
  rw [List.dropWhile_append_of_pos hdigits]
  cases rest with
  | nil => rfl
  | cons c rest => simp [hrest c rfl]

/-- One more digit behind a number. -/
theorem ofDigitChars_cons (c : Char) (digits : List Char) (number : Nat) :
    Nat.ofDigitChars 10 (c :: digits) number =
      Nat.ofDigitChars 10 digits (number * 10 + digitValue c) := by
  simp only [Nat.ofDigitChars_eq_foldl, List.foldl_cons, digitValue, Nat.mul_comm 10]

/-- Digits that are left out make a number smaller than their places would. -/
theorem mul_pow_le_ofDigitChars (number : Nat) (digits : List Char) :
    number * 10 ^ digits.length ≤ Nat.ofDigitChars 10 digits number := by
  rw [Nat.ofDigitChars_eq_ofDigitChars_zero, Nat.mul_comm]
  exact Nat.le_add_right _ _

theorem le_ofDigitChars (number : Nat) (digits : List Char) :
    number ≤ Nat.ofDigitChars 10 digits number :=
  Nat.le_trans (Nat.le_mul_of_pos_right _ (Nat.pow_pos (by decide)))
    (mul_pow_le_ofDigitChars number digits)

/-! ## Gathering -/

/-- How the text goes on behind digits is of no importance to what is gathered of them. -/
theorem gather_append (number : Nat) (hrest : DigitsEnd rest) :
    gather number (digits ++ rest) =
      ⟨(gather number digits).number, (gather number digits).count,
        (gather number digits).rest ++ rest⟩ := by
  induction digits generalizing number with
  | nil =>
    cases rest with
    | nil => rfl
    | cons c rest => simp [gather, hrest c rfl]
  | cons c digits ih =>
    by_cases hfits : c.isDigit ∧ number * 10 + digitValue c ≤ gatherLimit
    · simp [gather, hfits, ih]
    · simp [gather, hfits]

theorem isDigits_gather_rest (number : Nat) (hdigits : IsDigits digits) :
    IsDigits (gather number digits).rest := by
  induction digits generalizing number with
  | nil => exact hdigits
  | cons c digits ih =>
    by_cases hfits : c.isDigit ∧ number * 10 + digitValue c ≤ gatherLimit
    · simpa [gather, hfits] using ih _ fun d hd => hdigits d (List.mem_cons_of_mem _ hd)
    · simpa [gather, hfits] using hdigits

theorem gather_number_le (h : number ≤ gatherLimit) (cs : List Char) :
    (gather number cs).number ≤ gatherLimit := by
  induction cs generalizing number with
  | nil => exact h
  | cons c cs ih =>
    by_cases hfits : c.isDigit ∧ number * 10 + digitValue c ≤ gatherLimit
    · simpa [gather, hfits] using ih hfits.2
    · simpa [gather, hfits] using h

/-- The gathered number, moved to its place, does not exceed the number written. -/
theorem gather_number_mul_le (number : Nat) (digits : List Char) :
    (gather number digits).number * 10 ^ (digits.length - (gather number digits).count) ≤
      Nat.ofDigitChars 10 digits number := by
  induction digits generalizing number with
  | nil => simp [gather, Nat.ofDigitChars_nil]
  | cons c digits ih =>
    by_cases hfits : c.isDigit ∧ number * 10 + digitValue c ≤ gatherLimit
    · simpa [gather, hfits, ofDigitChars_cons] using ih _
    · simpa [gather, hfits] using mul_pow_le_ofDigitChars number (c :: digits)

theorem gather_count_le (number : Nat) (digits : List Char) :
    (gather number digits).count ≤ digits.length := by
  induction digits generalizing number with
  | nil => exact Nat.le_refl _
  | cons c digits ih =>
    by_cases hfits : c.isDigit ∧ number * 10 + digitValue c ≤ gatherLimit
    · simpa [gather, hfits] using ih _
    · simp [gather, hfits]

/-- Digits that name a number within the limit are gathered completely. -/
theorem gather_of_le (hdigits : IsDigits digits)
    (hfits : Nat.ofDigitChars 10 digits number ≤ gatherLimit) :
    gather number digits = ⟨Nat.ofDigitChars 10 digits number, digits.length, []⟩ := by
  induction digits generalizing number with
  | nil => simp [gather, Nat.ofDigitChars_nil]
  | cons c digits ih =>
    have hc : c.isDigit = true := hdigits c (List.mem_cons_self ..)
    rw [ofDigitChars_cons] at hfits ⊢
    have hstep : number * 10 + digitValue c ≤ gatherLimit :=
      Nat.le_trans (le_ofDigitChars _ _) hfits
    simp [gather, hc, hstep, ih (fun d hd => hdigits d (List.mem_cons_of_mem _ hd)) hfits]

/-! ## The parts of a number -/

/-- A whole part begins with the digit zero only if it is this digit. -/
def IsWholePart (digits : List Char) : Prop :=
  digits = ['0'] ∨ ∃ c more, digits = c :: more ∧ c ≠ '0'

theorem isWholePart_toDigits (n : Nat) : IsWholePart (Nat.toDigits 10 n) := by
  induction n using Nat.strongRecOn with
  | ind n ih =>
    rcases Nat.lt_or_ge n 10 with hn | hn
    · rw [Nat.toDigits_of_lt_base hn]
      rcases Nat.eq_zero_or_pos n with rfl | hpos
      · exact .inl rfl
      · refine .inr ⟨_, [], rfl, ?_⟩
        have : ∀ d < 10, 0 < d → d.digitChar ≠ '0' := by decide
        exact this n hn hpos
    · rw [Nat.toDigits_of_base_le (by decide) hn]
      rcases ih (n / 10) (by omega) with hzero | ⟨c, more, heq, hc⟩
      · have hvalue := Nat.ofDigitChars_ten_toDigits (n := n / 10)
        rw [hzero] at hvalue
        have : n / 10 = 0 := hvalue.symm
        omega
      · exact .inr ⟨c, more ++ [(n % 10).digitChar], by rw [heq]; rfl, hc⟩

theorem IsWholePart.ne_nil (h : IsWholePart digits) : digits ≠ [] := by
  rcases h with rfl | ⟨c, more, rfl, _⟩ <;> simp

/-- A whole part of at most 64 bits is gathered completely. -/
theorem readNumber_whole (hdigits : IsDigits digits) (hpart : IsWholePart digits)
    (hfits : Nat.ofDigitChars 10 digits 0 ≤ gatherLimit) (negative : Bool)
    (hrest : DigitsEnd rest) :
    readNumber negative (digits ++ rest) =
      readAfterWhole negative (Nat.ofDigitChars 10 digits 0) 0 rest := by
  rcases hpart with rfl | ⟨c, more, rfl, hc⟩
  · have hvalue : Nat.ofDigitChars 10 ['0'] 0 = 0 := by decide
    rw [hvalue]
    cases rest with
    | nil => simp [readNumber]
    | cons d rest => simp [readNumber, hrest d rfl]
  · have hdigit : c.isDigit = true := hdigits c (List.mem_cons_self ..)
    have hvalue : Nat.ofDigitChars 10 (c :: more) 0 = Nat.ofDigitChars 10 more (digitValue c) := by
      rw [ofDigitChars_cons, Nat.zero_mul, Nat.zero_add]
    have hgather := gather_of_le (fun d hd => hdigits d (List.mem_cons_of_mem _ hd))
      (Nat.le_trans (Nat.le_of_eq hvalue.symm) hfits)
    have hdrop : rest.dropWhile Char.isDigit = rest := by
      have hnone : IsDigits [] := by simp [IsDigits]
      simpa using dropWhile_digits hnone hrest
    simp [readNumber, hc, hdigit, gather_append _ hrest, hgather, hdrop, hvalue]

/-- The digits of a fraction are gathered as far as they fit. -/
theorem readFraction_digits (hdigits : IsDigits digits) (hne : digits ≠ []) (number : Nat)
    (exponent : Int) (hrest : DigitsEnd rest) :
    readFraction negative number exponent (digits ++ rest) =
      readTail negative (gather number digits).number (exponent - (gather number digits).count)
        rest := by
  have hdrop : ((gather number digits).rest ++ rest).dropWhile Char.isDigit = rest :=
    dropWhile_digits (isDigits_gather_rest number hdigits) hrest
  have hlength : ¬ rest.length = (digits ++ rest).length := by
    have := List.length_pos_iff.2 hne
    simp only [List.length_append]
    omega
  simp only [readFraction, gather_append number hrest, hdrop, hlength, and_false, if_false]

theorem readPower_digits {start : Int} (hdigits : IsDigits digits)
    (hfits : Nat.ofDigitChars 10 digits power ≤ 2147483647) (hrest : DigitsEnd rest) :
    readPower negative number start down power (digits ++ rest) =
      readPower.finish negative number start down (Nat.ofDigitChars 10 digits power) rest := by
  induction digits generalizing power with
  | nil =>
    cases rest with
    | nil => rfl
    | cons c rest => simp [readPower, hrest c rfl, Nat.ofDigitChars_nil]
  | cons c digits ih =>
    have hc : c.isDigit = true := hdigits c (List.mem_cons_self ..)
    rw [ofDigitChars_cons] at hfits ⊢
    have hstep : power * 10 + digitValue c ≤ 2147483647 :=
      Nat.le_trans (le_ofDigitChars _ _) hfits
    rw [List.cons_append, readPower, if_pos hc, if_pos hstep]
    exact ih (fun d hd => hdigits d (List.mem_cons_of_mem _ hd)) hfits

/-- An exponent with its sign, as the printer writes it. -/
def exponentChars : Int → List Char
  | .ofNat k => '+' :: Nat.toDigits 10 k
  | .negSucc k => '-' :: Nat.toDigits 10 (k + 1)

theorem readExponent_firstDigit {start : Int} {k : Nat} (hk : k ≤ 2147483647)
    (hrest : DigitsEnd rest) :
    readExponent.firstDigit negative number start down (Nat.toDigits 10 k ++ rest) =
      readPower.finish negative number start down k rest := by
  have hdigits := isDigits_toDigits k
  have hvalue := Nat.ofDigitChars_ten_toDigits (n := k)
  cases h : Nat.toDigits 10 k with
  | nil => exact absurd h Nat.toDigits_ne_nil
  | cons c digits =>
    rw [h] at hdigits hvalue
    rw [ofDigitChars_cons, Nat.zero_mul, Nat.zero_add] at hvalue
    have hc : c.isDigit = true := hdigits c (List.mem_cons_self ..)
    rw [List.cons_append, readExponent.firstDigit, if_pos hc,
      readPower_digits (fun d hd => hdigits d (List.mem_cons_of_mem _ hd)) (by omega) hrest, hvalue]

theorem readExponent_exponentChars {start exponent : Int} (hexponent : exponent.natAbs ≤ 2147483647)
    (hrest : DigitsEnd rest) :
    readExponent negative number start (exponentChars exponent ++ rest) =
      readScaled negative number (clampExponent (start + exponent)) rest := by
  cases exponent with
  | ofNat k =>
    rw [exponentChars, List.cons_append, readExponent,
      readExponent_firstDigit (by simpa using hexponent) hrest]
    rfl
  | negSucc k =>
    rw [exponentChars, List.cons_append, readExponent,
      readExponent_firstDigit (by simpa using hexponent) hrest]
    rfl

/-! ## Whole numbers -/

/-- A number that ends with its whole part is kept as it is. -/
theorem readAfterWhole_end (hrest : NumberEnd rest) :
    readAfterWhole negative number 0 rest =
      match wholeNumber negative number with
      | some result => .ok (result, rest)
      | none => .error (.last .numberOutOfRange rest) := by
  unfold readAfterWhole
  split
  · exact absurd rfl (hrest _ rfl).2.1
  · exact absurd rfl (hrest _ rfl).2.2.1
  · exact absurd rfl (hrest _ rfl).2.2.2
  · rfl

theorem wholeNumber_natAbs (n : Whole) :
    wholeNumber (decide (n.value < 0)) n.value.natAbs = some (.whole n) := by
  obtain ⟨value, hlower, hupper⟩ := n
  by_cases h : value < 0
  · have hrange : 0 < value.natAbs ∧ value.natAbs ≤ 9223372036854775808 := by omega
    have habs : -((value.natAbs : Nat) : Int) = value := by omega
    simp only [wholeNumber, decide_eq_true h, if_true, dif_pos hrange, habs]
  · have hrange : value.natAbs ≤ gatherLimit := by simp only [gatherLimit]; omega
    have habs : ((value.natAbs : Nat) : Int) = value := by omega
    simp only [wholeNumber, decide_eq_false h, Bool.false_eq_true, if_false, dif_pos hrange, habs]

/-- The digits of a whole number behind its sign are read as this number. -/
theorem readNumber_natAbs (n : Whole) (hrest : NumberEnd rest) :
    readNumber (decide (n.value < 0)) (Nat.toDigits 10 n.value.natAbs ++ rest) =
      .ok (.whole n, rest) := by
  have hvalue := Nat.ofDigitChars_ten_toDigits (n := n.value.natAbs)
  have hfits : Nat.ofDigitChars 10 (Nat.toDigits 10 n.value.natAbs) 0 ≤ gatherLimit := by
    have := n.lower
    have := n.upper
    simp only [hvalue, gatherLimit]
    omega
  rw [readNumber_whole (isDigits_toDigits _) (isWholePart_toDigits _) hfits _ hrest.digitsEnd,
    hvalue, readAfterWhole_end hrest, wholeNumber_natAbs]

end RecordQuery.Json
