/-
RecordQuery.Proofs.Double.Text — the display text of a double is read back as the double.

The display text and the lenient reader of numerals were made apart: the text is
a word, or all digits of a whole number, or the fewest digits that name the
number, without an exponent however large or small it is; the reader takes the
longest numeral and rounds. They meet because each of these texts is a numeral
as a whole (`Numeral.Spells`), which the reader takes whole, and what it names is
the double: a whole number is exact, and the shortest digits were tried. Only
the sign of zero is not in the text.

Main statements:
* `Decimal.exists_mantissa_positional` — digits without exponent are a numeral of their value;
* `Magnitude.exists_mantissa_plainChars` — the text of a magnitude names it;
* `Magnitude.place_of_ofPlace?`, `Double.bits?_ofBits` — the bits of a double;
* `Double.bits?_ofText_text` — all doubles, bit by bit.
-/
import RecordQuery.Double.Text
import RecordQuery.Proofs.Double.Spelling

namespace RecordQuery

open Json (IsDigits)

/-! ## Digits without an exponent -/

namespace Decimal

/-- Digits with a point and no exponent behind them name a decimal if they have its digits, and
perhaps zeros behind these, and the point where its exponent says. -/
def Names (whole fraction : List Char) (d : Decimal) : Prop :=
  ∃ k : Nat, digitsValue (whole ++ fraction) = d.digits * 10 ^ k ∧
    d.exponent = k - fraction.length

variable {whole fraction : List Char} {d : Decimal}

/-- Such digits are read as the decimal is. -/
theorem Names.toDouble (h : Names whole fraction d) (negative : Bool) :
    (Numeral.decimal negative whole fraction 0).toDouble =
      Double.ofMagnitude? negative d.toMagnitude? := by
  obtain ⟨k, hvalue, hexponent⟩ := h
  have hplace : (0 : Int) - fraction.length + k = d.exponent := by omega
  rw [Numeral.toDouble, hvalue, toMagnitude?_mul_pow, hplace]

/-- Every decimal can be written without an exponent. -/
theorem exists_mantissa_positional (d : Decimal) :
    ∃ whole fraction, Numeral.Mantissa (d.positional []) whole fraction ∧
      Names whole fraction d := by
  obtain ⟨digits, exponent⟩ := d
  cases exponent with
  | ofNat k =>
    have hall : IsDigits (Nat.toDigits 10 digits ++ zeros k) :=
      (Json.isDigits_toDigits digits).append (Json.isDigits_zeros k)
    refine ⟨Nat.toDigits 10 digits ++ zeros k, [], ?_, k, ?_, by simp⟩
    · simpa [positional] using Numeral.Mantissa.digits hall (by simp [Nat.toDigits_ne_nil])
    · unfold digitsValue zeros
      rw [List.append_nil, Nat.ofDigitChars_append, Nat.ofDigitChars_replicate_zero,
        Nat.ofDigitChars_ten_toDigits, Nat.mul_comm]
  | negSucc k =>
    -- With a fraction of its own it has no ending, so it is written as in JSON.
    obtain ⟨whole, fraction, hpositional⟩ :
        ∃ whole fraction, Json.IsPositional ⟨digits, .negSucc k⟩ whole fraction := by
      rcases Nat.lt_or_ge (k + 1) (Nat.toDigits 10 digits).length with hlt | hle
      · exact ⟨_, _, Json.isPositional_between hlt⟩
      · exact ⟨_, _, Json.isPositional_below hle⟩
    refine ⟨whole, fraction, ?_, hpositional.value⟩
    have hending : positional ⟨digits, .negSucc k⟩ [] =
        positional ⟨digits, .negSucc k⟩ ['.', '0'] := rfl
    rw [hending, hpositional.eq]
    exact .point hpositional.isDigits_whole hpositional.isDigits_fraction (.inr hpositional.ne_nil)

end Decimal

/-! ## Magnitudes -/

namespace Magnitude

variable {x : Magnitude}

/-- A double that is a whole number is read back from this number. -/
theorem toMagnitude?_toNat (hintegral : x.isIntegral = true) (hne : x.units ≠ 0) :
    Decimal.toMagnitude? ⟨x.toNat, 0⟩ = some x := by
  have hunits : x.toNat * unitsPerOne = x.units := by
    unfold toNat
    unfold isIntegral at hintegral
    exact Nat.div_mul_cancel (Nat.dvd_of_mod_eq_zero (by simpa using hintegral))
  have hdigits : x.toNat ≠ 0 := by
    intro hzero
    rw [hzero, Nat.zero_mul] at hunits
    exact hne hunits.symm
  have hplace : ¬ Decimal.leadingPlace ⟨x.toNat, 0⟩ < -400 := by
    simp only [Decimal.leadingPlace]
    omega
  rw [Decimal.toMagnitude?, if_neg hdigits, if_neg (show ¬ (400 : Int) < 0 by decide), if_neg hplace]
  show ofRatio? (x.toNat * 10 ^ 0 * unitsPerOne) 1 = some x
  rw [Nat.pow_zero, Nat.mul_one, hunits, ← Nat.mul_one x.units]
  exact ofRatio?_units x Nat.one_pos

/-- The text of a magnitude is a numeral without sign and exponent, and it names the magnitude. -/
theorem exists_mantissa_plainChars (x : Magnitude) (hne : x.units ≠ 0) :
    ∃ whole fraction, Numeral.Mantissa x.plainChars whole fraction ∧
      ∃ d, Decimal.Names whole fraction d ∧ d.toMagnitude? = some x := by
  unfold plainChars
  split
  · rename_i hwhole
    rw [Bool.and_eq_true] at hwhole
    refine ⟨Nat.toDigits 10 x.toNat, [], ?_, ⟨x.toNat, 0⟩, ⟨0, ?_, by simp⟩, ?_⟩
    · exact Numeral.Mantissa.digits (Json.isDigits_toDigits _) Nat.toDigits_ne_nil
    · rw [List.append_nil, Nat.pow_zero, Nat.mul_one]
      exact Nat.ofDigitChars_ten_toDigits
    · exact toMagnitude?_toNat hwhole.1 hne
  · obtain ⟨whole, fraction, hmantissa, hnames⟩ :=
      Decimal.exists_mantissa_positional (x.shortest .up)
    exact ⟨whole, fraction, hmantissa, _, hnames, toMagnitude?_shortest x .up⟩

/-! ### Places -/

theorem spareBits_eq {m k : Nat} (hlow : 2 ^ 52 ≤ m) (hhigh : m < 2 ^ 53) :
    spareBits (m * 2 ^ k) = k := by
  have hne : m * 2 ^ k ≠ 0 := Nat.ne_of_gt (Nat.mul_pos (by omega) (Nat.two_pow_pos k))
  have hlog : (m * 2 ^ k).log2 = 52 + k := by
    rw [Nat.log2_eq_iff hne, Nat.pow_add, Nat.add_right_comm, Nat.pow_add]
    exact ⟨Nat.mul_le_mul_right _ hlow, Nat.mul_lt_mul_of_pos_right hhigh (Nat.two_pow_pos k)⟩
  unfold spareBits
  omega

/-- The place at which a double was looked up is its place. -/
theorem place_of_ofPlace? {p : Nat} (h : ofPlace? p = some x) : x.place = p := by
  have hfraction : p % 2 ^ 52 < 2 ^ 52 := Nat.mod_lt _ (by decide)
  simp only [ofPlace?] at h
  split at h
  · split at h
    · rename_i hfield
      obtain rfl := Option.some.inj h
      have hspare : spareBits (p % 2 ^ 52 * 2 ^ 0) = 0 := by
        have hlog : (p % 2 ^ 52 * 2 ^ 0).log2 ≤ 52 := by
          by_contra hlarge
          have hne : p % 2 ^ 52 * 2 ^ 0 ≠ 0 := by
            intro hzero
            rw [hzero] at hlarge
            simp at hlarge
          have := (Nat.le_log2 hne).1 (Nat.le_of_not_le hlarge)
          omega
        unfold spareBits
        omega
      simp only [place, hspare]
      omega
    · rename_i hfield
      obtain rfl := Option.some.inj h
      have hspare : spareBits ((p % 2 ^ 52 + 2 ^ 52) * 2 ^ (p / 2 ^ 52 - 1)) = p / 2 ^ 52 - 1 :=
        spareBits_eq (by omega) (by omega)
      simp only [place, hspare, Nat.mul_div_cancel _ (Nat.two_pow_pos _)]
      omega
  · cases h

/-- Only the places of infinity and of no number have no double. -/
theorem ofPlace?_eq_none_iff (p : Nat) : ofPlace? p = none ↔ 2047 * 2 ^ 52 ≤ p := by
  simp only [ofPlace?]
  split
  · split <;> simp <;> omega
  · simp
    omega

end Magnitude

/-! ## Texts that are numerals -/

namespace Numeral

variable {p : List Char} {numeral : Numeral}

theorem isBlank_of_isDigit {c : Char} (hc : c.isDigit = true) : isBlank c = false := by
  simp only [Char.isDigit, Bool.and_eq_true, decide_eq_true_eq] at hc
  have hlow : 48 ≤ c.toNat := hc.1
  have hhigh : c.toNat ≤ 57 := hc.2
  simp [isBlank, blankRanges]
  omega

/-- No blanks stand in front of a numeral. -/
theorem trimStart_of_spells (h : Spells p numeral) : trimStart p = p := by
  have hfirst : ∃ c more, p = c :: more ∧ isBlank c = false := by
    cases h with
    | infinity hsign => cases hsign <;> exact ⟨_, _, rfl, by decide⟩
    | decimal hsign hmantissa hpower =>
      obtain ⟨c, more, rfl, hc⟩ := hmantissa.exists_cons
      cases hsign with
      | none =>
        refine ⟨c, _, rfl, ?_⟩
        rcases hc with hc | rfl
        · exact isBlank_of_isDigit hc
        · decide
      | plus => exact ⟨_, _, rfl, by decide⟩
      | minus => exact ⟨_, _, rfl, by decide⟩
  obtain ⟨c, more, rfl, hc⟩ := hfirst
  simp [trimStart, hc]

/-- A text that is a numeral is read as what it names. -/
theorem ofText_of_spells (h : Spells p numeral) :
    Double.ofText (String.ofList p) = numeral.toDouble := by
  rw [Double.ofText, String.toList_ofList, trimStart_of_spells h, leading?_of_spells h]

theorem sign_signChars (negative : Bool) : Sign (signChars negative) negative := by
  cases negative with
  | true => exact .minus
  | false => exact .none

end Numeral

/-! ## Doubles -/

namespace Double

open Numeral (Spells ofText_of_spells sign_signChars)

theorem ofText_text_infinity (negative : Bool) :
    ofText (infinity negative).text = infinity negative :=
  ofText_of_spells (Spells.infinity (sign_signChars negative))

theorem ofText_text_finite (x : FiniteDouble) (hne : x.magnitude.units ≠ 0) :
    ofText (finite x).text = finite x := by
  obtain ⟨whole, fraction, hmantissa, d, hnames, hread⟩ :=
    x.magnitude.exists_mantissa_plainChars hne
  have hspells : Spells (signChars x.negative ++ (x.magnitude.plainChars ++ []))
      (.decimal x.negative whole fraction 0) :=
    .decimal (sign_signChars x.negative) hmantissa .none
  rw [List.append_nil] at hspells
  simp only [text, if_neg hne]
  rw [ofText_of_spells hspells, hnames.toDouble, hread]
  rfl

/-- The double whose text has lost its sign. -/
def negativeZero : Double := .finite ⟨true, .zero⟩

/-- Every double but the negative zero is read back from its text. -/
theorem ofText_text_of_ne {x : Double} (h : x ≠ negativeZero) : ofText x.text = x := by
  cases x with
  | nan => decide
  | infinity negative => exact ofText_text_infinity negative
  | finite x =>
    by_cases hzero : x.magnitude.units = 0
    · obtain ⟨negative, magnitude⟩ := x
      obtain rfl : magnitude = .zero := Magnitude.eq_of_units hzero
      cases negative with
      | true => exact absurd rfl h
      | false => decide
    · exact ofText_text_finite x hzero

theorem ofText_text_negativeZero : ofText negativeZero.text = .finite ⟨false, .zero⟩ := by
  decide

/-! ### Bits -/

/-- The patterns of 64 bits that are no number: all bits of the exponent and some bit of the
fraction are set. -/
def IsNanPattern (bits : UInt64) : Prop := 2047 * 2 ^ 52 < bits.toNat % 2 ^ 63

instance (bits : UInt64) : Decidable (IsNanPattern bits) :=
  inferInstanceAs (Decidable (_ < _))

theorem toNat_signBit_add {bits : UInt64} {place : Nat} (h : place = bits.toNat % 2 ^ 63) :
    bits?.signBit (decide (2 ^ 63 ≤ bits.toNat)) + UInt64.ofNat place = bits := by
  have hlt := bits.toNat_lt
  have hplace : place < 2 ^ 64 := by omega
  rw [← UInt64.toNat_inj, UInt64.toNat_add, UInt64.toNat_ofNat', Nat.mod_eq_of_lt hplace]
  unfold bits?.signBit
  split
  · rename_i hsign
    have := of_decide_eq_true hsign
    rw [UInt64.toNat_ofNat', Nat.mod_eq_of_lt (show 2 ^ 63 < 2 ^ 64 by decide)]
    omega
  · rename_i hsign
    have := of_decide_eq_false (Bool.eq_false_iff.2 hsign)
    show (0 + place) % 2 ^ 64 = bits.toNat
    omega

/-- The bits of a double, unless they are no number. -/
theorem bits?_ofBits (bits : UInt64) :
    (ofBits bits).bits? = if IsNanPattern bits then none else some bits := by
  simp only [ofBits]
  cases hplace : Magnitude.ofPlace? (bits.toNat % 2 ^ 63) with
  | some magnitude =>
    have hbelow : ¬ IsNanPattern bits := by
      intro hnan
      rw [(Magnitude.ofPlace?_eq_none_iff _).2 (Nat.le_of_lt hnan)] at hplace
      cases hplace
    rw [if_neg hbelow]
    exact congrArg some (toNat_signBit_add (Magnitude.place_of_ofPlace? hplace))
  | none =>
    have hfield := (Magnitude.ofPlace?_eq_none_iff _).1 hplace
    by_cases hinfinity : bits.toNat % 2 ^ 63 = 2047 * 2 ^ 52
    · have hnumber : ¬ IsNanPattern bits := Nat.not_lt.2 (Nat.le_of_eq hinfinity)
      simp only [if_pos hinfinity, if_neg hnumber]
      exact congrArg some (toNat_signBit_add hinfinity.symm)
    · have hnan : IsNanPattern bits := Nat.lt_of_le_of_ne hfield (Ne.symm hinfinity)
      simp only [if_neg hinfinity, if_pos hnan]
      rfl

/-- Only the pattern with nothing but the sign set is the negative zero. -/
theorem ofBits_eq_negativeZero_iff (bits : UInt64) :
    ofBits bits = negativeZero ↔ bits = 0x8000000000000000 := by
  constructor
  · intro h
    have hbits := bits?_ofBits bits
    rw [h] at hbits
    split at hbits
    · cases hbits
    · exact (Option.some.inj hbits).symm
  · rintro rfl
    decide +kernel

/-- The text of a double is read back as the same double, bit by bit. What is no number stays so;
the infinities come back; the negative zero comes back without its sign. -/
theorem bits?_ofText_text :
    (∀ x : Double, ofText x.text = if x = negativeZero then .finite ⟨false, .zero⟩ else x) ∧
      ∀ bits : UInt64, (ofText (ofBits bits).text).bits? =
        if IsNanPattern bits then none
        else if bits = 0x8000000000000000 then some 0 else some bits := by
  have hread (x : Double) :
      ofText x.text = if x = negativeZero then .finite ⟨false, .zero⟩ else x := by
    split
    · rename_i hzero
      rw [hzero, ofText_text_negativeZero]
    · rename_i hne
      exact ofText_text_of_ne hne
  refine ⟨hread, fun bits => ?_⟩
  rw [hread]
  by_cases hzero : bits = 0x8000000000000000
  · rw [if_pos ((ofBits_eq_negativeZero_iff bits).2 hzero), if_pos hzero, hzero]
    decide +kernel
  · rw [if_neg fun h => hzero ((ofBits_eq_negativeZero_iff bits).1 h), if_neg hzero]
    exact bits?_ofBits bits

end Double

end RecordQuery
