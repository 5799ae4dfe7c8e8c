/-
RecordQuery.Proofs.Double.Plain — the display text of a double.

The text by which a number is displayed and searched is said here without the
functions that write it: a word, or digits with a point and without an exponent
that stand for one number and have no zeros that say nothing (`IsPlain`). The
number is the double itself if that is whole and below 10^21, and otherwise the
decimal with the fewest digits that names the double (`Magnitude.IsShortest`).
Zero has no sign. There is one such text, because plain digits can be told from
the number: the point cuts it into its whole part and a rest below one, and a
further digit at the end would not be zero.

Main statements:
* `IsPlain.unique` — a number has one plain text;
* `Decimal.writtenPlainly_positional` — decimals without a zero at the end are written plainly;
* `Double.shows_iff` — the display text is what it should be.
-/
import RecordQuery.Proofs.Double.Fewest
import RecordQuery.Proofs.Double.Text

namespace RecordQuery

open Json (IsDigits IsWholePart)

/-! ## Plain digits -/

/-- The digits on the two sides of a point stand for a number, and no zeros are there that say nothing:
in front of the whole part, unless it is zero, and at the end of the fraction. -/
structure IsPlain (q : ℚ) (whole fraction : List Char) : Prop where
  isDigits_whole : IsDigits whole
  isDigits_fraction : IsDigits fraction
  isWholePart : IsWholePart whole
  getLast?_ne : fraction.getLast? ≠ some '0'
  value : decimalValue whole fraction 0 = q

/-- The number is written by digits alone: with a point only where a fraction is. -/
def WrittenPlainly (q : ℚ) (cs : List Char) : Prop :=
  ∃ whole fraction, IsPlain q whole fraction ∧
    cs = if fraction = [] then whole else whole ++ '.' :: fraction

variable {q : ℚ} {whole fraction whole' fraction' digits others cs : List Char} {d : Decimal}
  {c : Char} {n : Nat}

/-- The digits of the whole part and of the fraction, one behind the other. -/
theorem digitsValue_append (whole fraction : List Char) :
    digitsValue (whole ++ fraction) =
      digitsValue whole * 10 ^ fraction.length + digitsValue fraction := by
  unfold digitsValue
  rw [Nat.ofDigitChars_append, Nat.ofDigitChars_eq_ofDigitChars_zero, Nat.mul_comm]

theorem digitsValue_lt (h : IsDigits digits) : digitsValue digits < 10 ^ digits.length := by
  simpa [digitsValue] using Json.ofDigitChars_lt h 0

theorem decimalValue_mul_pow (whole fraction : List Char) :
    decimalValue whole fraction 0 * 10 ^ fraction.length = digitsValue (whole ++ fraction) := by
  rw [decimalValue, Decimal.value, zero_sub, zpow_neg, zpow_natCast, mul_assoc,
    inv_mul_cancel₀ (by positivity), mul_one]

/-- Digits that stand for one number have the same whole part, and fractions of one value. -/
theorem IsPlain.cross (h : IsPlain q whole fraction) (h' : IsPlain q whole' fraction') :
    digitsValue whole = digitsValue whole' ∧
      digitsValue fraction * 10 ^ fraction'.length =
        digitsValue fraction' * 10 ^ fraction.length := by
  have hvalue := decimalValue_mul_pow whole fraction
  have hvalue' := decimalValue_mul_pow whole' fraction'
  rw [h.value] at hvalue
  rw [h'.value] at hvalue'
  have hcross : digitsValue (whole ++ fraction) * 10 ^ fraction'.length =
      digitsValue (whole' ++ fraction') * 10 ^ fraction.length := by
    have : (digitsValue (whole ++ fraction) : ℚ) * 10 ^ fraction'.length =
        digitsValue (whole' ++ fraction') * 10 ^ fraction.length := by
      rw [← hvalue, ← hvalue']
      ring
    exact_mod_cast this
  have hlt := Nat.mul_lt_mul_of_pos_right (digitsValue_lt h.isDigits_fraction)
    (show 0 < 10 ^ fraction'.length from Nat.pow_pos (by decide))
  have hlt' := Nat.mul_lt_mul_of_pos_right (digitsValue_lt h'.isDigits_fraction)
    (show 0 < 10 ^ fraction.length from Nat.pow_pos (by decide))
  rw [Nat.mul_comm (10 ^ fraction'.length)] at hlt'
  rw [digitsValue_append, digitsValue_append, Nat.add_mul, Nat.add_mul, Nat.mul_assoc,
    Nat.mul_assoc, Nat.mul_comm (10 ^ fraction'.length)] at hcross
  generalize 10 ^ fraction.length * 10 ^ fraction'.length = places at *
  have hwhole : digitsValue whole = digitsValue whole' := by
    have hdiv := congrArg (· / places) hcross
    simp only [Nat.mul_comm _ places] at hdiv
    rwa [Nat.mul_add_div (by omega), Nat.mul_add_div (by omega), Nat.div_eq_of_lt hlt,
      Nat.div_eq_of_lt hlt', Nat.add_zero, Nat.add_zero] at hdiv
  refine ⟨hwhole, ?_⟩
  rw [hwhole] at hcross
  exact Nat.add_left_cancel hcross

/-- A fraction without a zero at the end is not longer than another one of its value. -/
theorem length_le_of_getLast?_ne (hdigits : IsDigits others) (hlast : others.getLast? ≠ some '0')
    (h : digitsValue digits * 10 ^ others.length = digitsValue others * 10 ^ digits.length) :
    others.length ≤ digits.length := by
  by_contra hlt
  obtain ⟨more, hmore⟩ := Nat.exists_eq_add_of_lt (Nat.lt_of_not_le hlt)
  have hvalue : digitsValue others = digitsValue digits * 10 ^ more * 10 := by
    have hpos : 0 < 10 ^ digits.length := Nat.pow_pos (by decide)
    refine Nat.eq_of_mul_eq_mul_right hpos ?_
    rw [← h, hmore, Nat.pow_succ, Nat.pow_add]
    ring
  have hne : others ≠ [] := by
    rintro rfl
    simp at hmore
  obtain ⟨front, c, rfl⟩ := (List.eq_nil_or_concat' others).resolve_left hne
  have hc : c.isDigit = true := hdigits c (by simp)
  rw [digitsValue_append] at hvalue
  have hzero : Json.digitValue c = 0 := by
    have hle := Json.digitValue_le hc
    have hself : digitsValue [c] = Json.digitValue c := by
      simp [digitsValue, Json.ofDigitChars_cons]
    simp only [List.length_singleton, hself] at hvalue
    omega
  refine hlast ?_
  rw [List.getLast?_concat]
  congr 1
  simp only [Char.isDigit, Bool.and_eq_true, decide_eq_true_eq] at hc
  have hlow : 48 ≤ c.toNat := hc.1
  simp only [Json.digitValue, Char.reduceToNat] at hzero
  exact Char.toNat_inj.1 (show c.toNat = 48 by omega)

/-- A whole part without a zero in front is not longer than other digits of its value. -/
theorem length_le_of_isWholePart (hpart : IsWholePart digits) (hdigits : IsDigits digits)
    (hothers : IsDigits others) (hne : others ≠ []) (h : digitsValue digits = digitsValue others) :
    digits.length ≤ others.length := by
  rcases hpart with rfl | ⟨c, more, rfl, hc⟩
  · exact List.length_pos_iff.2 hne
  · have hone : 1 ≤ Json.digitValue c := by
      have hdigit : c.isDigit = true := hdigits c (List.mem_cons_self ..)
      simp only [Char.isDigit, Bool.and_eq_true, decide_eq_true_eq] at hdigit
      have hlow : 48 ≤ c.toNat := hdigit.1
      have hzero : c.toNat ≠ 48 := fun heq => hc (Char.toNat_inj.1 heq)
      simp only [Json.digitValue, Char.reduceToNat]
      omega
    have hlow : 10 ^ more.length ≤ digitsValue (c :: more) := by
      rw [digitsValue, Json.ofDigitChars_cons, Nat.zero_mul, Nat.zero_add]
      exact Nat.le_trans (Nat.le_mul_of_pos_left _ hone) (Json.mul_pow_le_ofDigitChars _ _)
    have hlt : 10 ^ more.length < 10 ^ others.length :=
      Nat.lt_of_le_of_lt (h ▸ hlow) (digitsValue_lt hothers)
    exact (Nat.pow_lt_pow_iff_right (by decide)).1 hlt

/-- A number has one plain text. -/
theorem IsPlain.unique (h : IsPlain q whole fraction) (h' : IsPlain q whole' fraction') :
    whole = whole' ∧ fraction = fraction' := by
  obtain ⟨hwhole, hfraction⟩ := h.cross h'
  constructor
  · refine Json.digits_eq_of_ofDigitChars_eq h.isDigits_whole h'.isDigits_whole ?_ hwhole
    exact Nat.le_antisymm
      (length_le_of_isWholePart h.isWholePart h.isDigits_whole h'.isDigits_whole
        h'.isWholePart.ne_nil hwhole)
      (length_le_of_isWholePart h'.isWholePart h'.isDigits_whole h.isDigits_whole
        h.isWholePart.ne_nil hwhole.symm)
  · have hlength : fraction.length = fraction'.length :=
      Nat.le_antisymm
        (length_le_of_getLast?_ne h.isDigits_fraction h.getLast?_ne hfraction.symm)
        (length_le_of_getLast?_ne h'.isDigits_fraction h'.getLast?_ne hfraction)
    refine Json.digits_eq_of_ofDigitChars_eq h.isDigits_fraction h'.isDigits_fraction hlength ?_
    rw [hlength] at hfraction
    exact Nat.eq_of_mul_eq_mul_right (Nat.pow_pos (by decide)) hfraction

theorem WrittenPlainly.unique {other : List Char} (h : WrittenPlainly q cs)
    (h' : WrittenPlainly q other) : cs = other := by
  obtain ⟨whole, fraction, hplain, rfl⟩ := h
  obtain ⟨whole', fraction', hplain', rfl⟩ := h'
  obtain ⟨rfl, rfl⟩ := hplain.unique hplain'
  rfl

/-! ## What is written plainly -/

theorem writtenPlainly_natCast (n : Nat) : WrittenPlainly n (Nat.toDigits 10 n) := by
  refine ⟨Nat.toDigits 10 n, [], ⟨Json.isDigits_toDigits n, nofun, Json.isWholePart_toDigits n,
    nofun, ?_⟩, rfl⟩
  simp [decimalValue, Decimal.value, digitsValue]

theorem getLast?_toDigits (n : Nat) :
    (Nat.toDigits 10 n).getLast? = some (n % 10).digitChar := by
  rcases Nat.lt_or_ge n 10 with hlt | hge
  · rw [Nat.toDigits_of_lt_base hlt, Nat.mod_eq_of_lt hlt]
    rfl
  · rw [Nat.toDigits_of_base_le (by decide) hge, List.getLast?_concat]

theorem getLast?_toDigits_ne (h : n % 10 ≠ 0) : (Nat.toDigits 10 n).getLast? ≠ some '0' := by
  rw [getLast?_toDigits]
  intro hzero
  have hchar := congrArg Char.toNat (Option.some.inj hzero)
  have hvalue := Nat.toNat_digitChar_sub_48_of_lt_ten (Nat.mod_lt n (show 10 > 0 by decide))
  rw [hchar] at hvalue
  exact h hvalue.symm

theorem toDigits_eq_cons (h : n ≠ 0) : ∃ c more, Nat.toDigits 10 n = c :: more ∧ c ≠ '0' := by
  rcases Json.isWholePart_toDigits n with hzero | hcons
  · refine absurd ?_ h
    rw [← Nat.ofDigitChars_ten_toDigits (n := n), hzero]
    decide
  · exact hcons

namespace Decimal

theorem Names.value_eq (h : Names whole fraction d) : decimalValue whole fraction 0 = d.value := by
  obtain ⟨k, hvalue, hexponent⟩ := h
  have hplace : (0 : Int) - fraction.length = -fraction.length := by omega
  rw [decimalValue, value, value, hvalue, hexponent, hplace, sub_eq_add_neg,
    zpow_add₀ (by norm_num), zpow_natCast]
  push_cast
  ring

/-- A decimal without a zero at the end is written plainly. -/
theorem writtenPlainly_positional (hlast : d.digits % 10 ≠ 0) :
    WrittenPlainly d.value (d.positional []) := by
  obtain ⟨digits, exponent⟩ := d
  have hne : digits ≠ 0 := by
    rintro rfl
    exact hlast rfl
  obtain ⟨c, more, hdigits, hc⟩ := toDigits_eq_cons hne
  have hend := getLast?_toDigits_ne hlast
  cases exponent with
  | ofNat k =>
    have hall : IsDigits (Nat.toDigits 10 digits ++ zeros k) :=
      (Json.isDigits_toDigits digits).append (Json.isDigits_zeros k)
    refine ⟨Nat.toDigits 10 digits ++ zeros k, [], ⟨hall, nofun, .inr ?_, nofun, ?_⟩, ?_⟩
    · exact ⟨c, more ++ zeros k, by rw [hdigits]; rfl, hc⟩
    · refine Names.value_eq ⟨k, ?_, by simp⟩
      unfold digitsValue zeros
      rw [List.append_nil, Nat.ofDigitChars_append, Nat.ofDigitChars_replicate_zero,
        Nat.ofDigitChars_ten_toDigits, Nat.mul_comm]
    · simp [positional]
  | negSucc k =>
    have hending : positional ⟨digits, .negSucc k⟩ [] =
        positional ⟨digits, .negSucc k⟩ ['.', '0'] := rfl
    rw [hending]
    rcases Nat.lt_or_ge (k + 1) (Nat.toDigits 10 digits).length with hlt | hle
    · have h := Json.isPositional_between hlt
      refine ⟨_, _, ⟨h.isDigits_whole, h.isDigits_fraction, .inr ?_, ?_, Names.value_eq h.value⟩, ?_⟩
      · obtain ⟨before, hbefore⟩ :=
          Nat.exists_eq_succ_of_ne_zero (Nat.sub_ne_zero_of_lt hlt)
        exact ⟨c, more.take before, by rw [hbefore, hdigits]; rfl, hc⟩
      · rw [List.getLast?_drop, if_neg (by omega)]
        exact hend
      · rw [h.eq, if_neg h.ne_nil]
    · have h := Json.isPositional_below hle
      refine ⟨_, _, ⟨h.isDigits_whole, h.isDigits_fraction, .inl rfl, ?_, Names.value_eq h.value⟩, ?_⟩
      · rw [List.getLast?_append, hdigits, List.getLast?_cons, Option.some_or, ← List.getLast?_cons,
          ← hdigits]
        exact hend
      · rw [h.eq, if_neg h.ne_nil]

end Decimal

/-! ## Doubles -/

namespace Magnitude

variable {x : Magnitude}

/-- A magnitude is shown as a whole number if it is one below 10^21, and otherwise by the fewest digits
that name it. -/
inductive Shows (x : Magnitude) : List Char → Prop
  | whole {n : Nat} {cs : List Char} (isWhole : x.units = n * unitsPerOne) (below : n < 10 ^ 21)
      (written : WrittenPlainly n cs) : Shows x cs
  | fewest {d : Decimal} {cs : List Char}
      (notWhole : ¬ ∃ n < 10 ^ 21, x.units = n * unitsPerOne) (shortest : x.IsShortest d)
      (written : WrittenPlainly d.value cs) : Shows x cs

theorem Shows.unique {other : List Char} (h : x.Shows cs) (h' : x.Shows other) : cs = other := by
  cases h with
  | whole isWhole below written =>
    cases h' with
    | whole isWhole' _ written' =>
      obtain rfl := Nat.eq_of_mul_eq_mul_right unitsPerOne_pos (isWhole.symm.trans isWhole')
      exact written.unique written'
    | fewest notWhole => exact absurd ⟨_, below, isWhole⟩ notWhole
  | fewest notWhole shortest written =>
    cases h' with
    | whole isWhole below => exact absurd ⟨_, below, isWhole⟩ notWhole
    | fewest _ shortest' written' =>
      rw [shortest'.value_eq shortest] at written'
      exact written.unique written'

/-- The fewest digits do not end with a zero. -/
theorem IsShortest.digits_mod_ne (h : x.IsShortest d) (hx : 0 < x.units) : d.digits % 10 ≠ 0 := by
  intro hzero
  have hpos := Decimal.digits_pos_of_reads h.reads hx
  obtain ⟨k, hk⟩ := Nat.dvd_of_mod_eq_zero hzero
  have hvalue : Decimal.value ⟨k, d.exponent + 1⟩ = d.value := by
    rw [← Decimal.value_mul_ten, Nat.mul_comm, ← hk]
  have hfewest := h.fewest ⟨k, d.exponent + 1⟩ (by rw [Decimal.Reads, hvalue]; exact h.reads)
  rw [hk, Nat.mul_comm, Decimal.digitCount_mul_ten (by omega)] at hfewest
  dsimp only at hfewest
  omega

/-- What is written shows the magnitude. -/
theorem shows_plainChars (hx : 0 < x.units) : x.Shows x.plainChars := by
  rw [plainChars]
  split
  · rename_i hwhole
    simp only [isIntegral, Bool.and_eq_true, beq_iff_eq, decide_eq_true_eq] at hwhole
    have hunits : x.units = x.toNat * unitsPerOne :=
      (Nat.div_mul_cancel (Nat.dvd_of_mod_eq_zero hwhole.1)).symm
    refine .whole hunits ?_ (writtenPlainly_natCast _)
    rw [hunits] at hwhole
    exact Nat.lt_of_mul_lt_mul_right hwhole.2
  · rename_i hnot
    have hshortest := isShortest_shortest hx
    refine .fewest ?_ hshortest (Decimal.writtenPlainly_positional (hshortest.digits_mod_ne hx))
    rintro ⟨n, hn, hunits⟩
    refine hnot ?_
    simp only [isIntegral, hunits, Nat.mul_mod_left, BEq.rfl, Bool.true_and, decide_eq_true_eq]
    exact Nat.mul_lt_mul_of_pos_right hn unitsPerOne_pos

end Magnitude

namespace Double

/-- The text by which a double is displayed: a word, or its digits behind a minus sign where it is below
zero. -/
inductive Shows : Double → List Char → Prop
  | nan : Shows .nan "NaN".toList
  | infinity : Shows (.infinity false) "Infinity".toList
  | negativeInfinity : Shows (.infinity true) "-Infinity".toList
  | zero {x : FiniteDouble} (isZero : x.magnitude.units = 0) : Shows (.finite x) "0".toList
  | positive {m : Magnitude} {cs : List Char} (pos : 0 < m.units) (shows : m.Shows cs) :
      Shows (.finite ⟨false, m⟩) cs
  | negative {m : Magnitude} {cs : List Char} (pos : 0 < m.units) (shows : m.Shows cs) :
      Shows (.finite ⟨true, m⟩) ('-' :: cs)

theorem Shows.unique {x : Double} {other : List Char} (h : x.Shows cs) (h' : x.Shows other) :
    cs = other := by
  cases h with
  | nan => cases h'; rfl
  | infinity => cases h'; rfl
  | negativeInfinity => cases h'; rfl
  | zero isZero =>
    cases h' with
    | zero => rfl
    | positive pos => exact absurd isZero (Nat.ne_of_gt pos)
    | negative pos => exact absurd isZero (Nat.ne_of_gt pos)
  | positive pos hm =>
    cases h' with
    | zero isZero => exact absurd isZero (Nat.ne_of_gt pos)
    | positive _ hm' => exact hm.unique hm'
  | negative pos hm =>
    cases h' with
    | zero isZero => exact absurd isZero (Nat.ne_of_gt pos)
    | negative _ hm' => rw [hm.unique hm']

theorem shows_text (x : Double) : x.Shows x.text.toList := by
  cases x with
  | nan => exact .nan
  | infinity negative =>
    cases negative with
    | true => exact .negativeInfinity
    | false => exact .infinity
  | finite x =>
    obtain ⟨negative, m⟩ := x
    simp only [text]
    split
    · rename_i hzero
      exact .zero hzero
    · rename_i hne
      have hpos := Nat.pos_of_ne_zero hne
      rw [String.toList_ofList]
      cases negative with
      | true => exact .negative hpos (Magnitude.shows_plainChars hpos)
      | false => exact .positive hpos (Magnitude.shows_plainChars hpos)

/-- The display text is the text that shows the double. -/
theorem shows_iff {x : Double} : x.Shows cs ↔ cs = x.text.toList := by
  constructor
  · intro h
    exact h.unique x.shows_text
  · rintro rfl
    exact x.shows_text

end Double

end RecordQuery
