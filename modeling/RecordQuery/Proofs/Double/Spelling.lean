/-
RecordQuery.Proofs.Double.Spelling — the numerals that a text begins with.

`Spells` is the grammar of numerals as it is documented, part by part and apart
from the reader. The reader takes the longest numeral that a text begins with.
It never goes back over a character, which is right because every part ends
where the next one cannot begin: digits are followed by no digit, a point is
given up only if there is no digit on either side, and a letter with its sign
only if no digit follows. So a numeral that the text begins with is matched part
by part, and no part is longer than what the reader takes for it.

Main statements:
* `leading?_eq_none_iff` — the reader finds a numeral if the text begins with one;
* `leading?_spec` — it spells what was taken, and none that is longer comes first;
* `leading?_of_spells` — a numeral that stands alone is taken whole.
-/
import RecordQuery.Proofs.Double.Numeral

namespace RecordQuery.Numeral

open Json (DigitsEnd IsDigits)

/-! ## The grammar -/

/-- A sign or none, and whether it is a minus. -/
inductive Sign : List Char → Bool → Prop
  | none : Sign [] false
  | plus : Sign ['+'] false
  | minus : Sign ['-'] true

/-- Digits, with a point before, among or behind them or without one, and the digits on its two
sides. -/
inductive Mantissa : List Char → List Char → List Char → Prop
  | digits {whole : List Char} (hwhole : IsDigits whole) (hne : whole ≠ []) :
      Mantissa whole whole []
  | point {whole fraction : List Char} (hwhole : IsDigits whole) (hfraction : IsDigits fraction)
      (hne : whole ≠ [] ∨ fraction ≠ []) : Mantissa (whole ++ '.' :: fraction) whole fraction

/-- An exponent behind its letter, or none. -/
inductive Power : List Char → Int → Prop
  | none : Power [] 0
  | digits {letter : Char} {sign digits : List Char} {negative : Bool}
      (hletter : letter = 'e' ∨ letter = 'E') (hsign : Sign sign negative)
      (hdigits : IsDigits digits) (hne : digits ≠ []) : Power (letter :: (sign ++ digits))
        (if negative then -(digitsValue digits : Int) else digitsValue digits)

/-- The text is a numeral, which stands for what is named. -/
inductive Spells : List Char → Numeral → Prop
  | infinity {sign : List Char} {negative : Bool} (hsign : Sign sign negative) :
      Spells (sign ++ infinityWord) (.infinity negative)
  | decimal {sign mantissa whole fraction power : List Char} {negative : Bool} {exponent : Int}
      (hsign : Sign sign negative) (hmantissa : Mantissa mantissa whole fraction)
      (hpower : Power power exponent) :
      Spells (sign ++ (mantissa ++ power)) (.decimal negative whole fraction exponent)

variable {cs p rest sign mantissa whole fraction power digits : List Char} {negative : Bool}
  {exponent : Int} {c : Char} {numeral : Numeral}

/-! ## Where parts end -/

theorem isDigits_takeWhile (cs : List Char) : IsDigits (cs.takeWhile Char.isDigit) :=
  List.all_eq_true.1 List.all_takeWhile

/-- Digits at the start of a text are among those that are taken; and if they are followed by
something else, they are all. -/
theorem digits_append_begins (hdigits : IsDigits digits) (hrest : DigitsEnd rest)
    (h : digits ++ rest <+: cs) :
    digits <+: cs.takeWhile Char.isDigit ∧
      (rest ≠ [] → digits = cs.takeWhile Char.isDigit ∧ rest <+: cs.dropWhile Char.isDigit) := by
  obtain ⟨more, rfl⟩ := h
  rw [List.append_assoc]
  constructor
  · rw [List.takeWhile_append_of_pos hdigits]
    exact List.prefix_append _ _
  · intro hne
    have hend : DigitsEnd (rest ++ more) := by
      cases rest with
      | nil => exact absurd rfl hne
      | cons c rest => exact hrest
    rw [takeWhile_digits hdigits hend, Json.dropWhile_digits hdigits hend]
    exact ⟨rfl, List.prefix_append _ _⟩

/-- The text does not begin with a sign. -/
def SignFree (cs : List Char) : Prop := ∀ c ∈ cs.head?, c ≠ '+' ∧ c ≠ '-'

theorem readSign_of_signFree (h : SignFree cs) : readSign cs = (false, cs) := by
  unfold readSign
  split
  · exact absurd rfl (h '-' rfl).2
  · exact absurd rfl (h '+' rfl).1
  · rfl

theorem readSign_append (hsign : Sign sign negative) (h : SignFree cs) :
    readSign (sign ++ cs) = (negative, cs) := by
  cases hsign with
  | none => exact readSign_of_signFree h
  | plus => rfl
  | minus => rfl

/-- What is read as a sign is one. -/
theorem exists_sign (cs : List Char) :
    ∃ sign, cs = sign ++ (readSign cs).2 ∧ Sign sign (readSign cs).1 := by
  unfold readSign
  split
  · exact ⟨['-'], rfl, .minus⟩
  · exact ⟨['+'], rfl, .plus⟩
  · exact ⟨[], rfl, .none⟩

theorem signFree_of_digits (hdigits : IsDigits digits) (hne : digits ≠ []) (rest : List Char) :
    SignFree (digits ++ rest) := by
  obtain ⟨c, more, rfl⟩ := List.exists_cons_of_ne_nil hne
  rintro _ ⟨⟩
  have hc : c.isDigit = true := hdigits c (List.mem_cons_self ..)
  exact ⟨Json.ne_of_isDigit hc (by decide), Json.ne_of_isDigit hc (by decide)⟩

/-! ## Exponents -/

theorem Power.digitsEnd (h : Power power exponent) : DigitsEnd power := by
  cases h with
  | none => simp [DigitsEnd]
  | digits hletter =>
    refine Json.digitsEnd_cons ?_
    rcases hletter with rfl | rfl <;> decide

theorem readExponent_cons (hletter : c = 'e' ∨ c = 'E') (cs : List Char) :
    readExponent (c :: cs) = readPower c cs := by
  rcases hletter with rfl | rfl <;> rfl

/-- What is read as an exponent is one. -/
theorem exists_power (cs : List Char) :
    ∃ power, cs = power ++ (readExponent cs).2 ∧ Power power (readExponent cs).1 := by
  have hpower (c : Char) (hletter : c = 'e' ∨ c = 'E') (more : List Char) :
      ∃ power, c :: more = power ++ (readPower c more).2 ∧ Power power (readPower c more).1 := by
    obtain ⟨sign, hsign, hspelled⟩ := exists_sign more
    simp only [readPower]
    split
    · exact ⟨[], rfl, .none⟩
    · rename_i hne
      refine ⟨c :: (sign ++ (readSign more).2.takeWhile Char.isDigit), ?_,
        .digits hletter hspelled ?_ (by simpa using hne)⟩
      · rw [List.cons_append, List.append_assoc, List.takeWhile_append_dropWhile, ← hsign]
      · exact isDigits_takeWhile _
  unfold readExponent
  split
  · exact hpower 'e' (.inl rfl) _
  · exact hpower 'E' (.inr rfl) _
  · exact ⟨[], rfl, .none⟩

/-- No exponent that a text begins with is longer than what is read. -/
theorem power_length_le (h : Power power exponent) (hbegins : power <+: cs) :
    power.length + (readExponent cs).2.length ≤ cs.length := by
  cases h with
  | none =>
    obtain ⟨power, hpower, -⟩ := exists_power cs
    have hlength := congrArg List.length hpower
    rw [List.length_append] at hlength
    rw [List.length_nil]
    omega
  | @digits letter sign digits negative hletter hsign hdigits hne =>
    obtain ⟨more, rfl⟩ := hbegins
    have hread : readSign (sign ++ (digits ++ more)) = (negative, digits ++ more) :=
      readSign_append hsign (signFree_of_digits hdigits hne more)
    have htaken : ((digits ++ more).takeWhile Char.isDigit).isEmpty = false := by
      rw [List.takeWhile_append_of_pos hdigits]
      simp [hne]
    have hlength := (List.dropWhile_suffix Char.isDigit (l := more)).length_le
    rw [List.cons_append, List.append_assoc, readExponent_cons hletter]
    simp only [readPower, hread, htaken, List.dropWhile_append_of_pos hdigits, Bool.false_eq_true,
      if_false, List.length_cons, List.length_append]
    omega

/-! ## Digits and the point -/

/-- What is read as digits with a point is a mantissa, unless there is no digit. -/
theorem exists_mantissa (cs : List Char)
    (hne : cs.takeWhile Char.isDigit ≠ [] ∨ (readFraction (cs.dropWhile Char.isDigit)).1 ≠ []) :
    ∃ mantissa, cs = mantissa ++ (readFraction (cs.dropWhile Char.isDigit)).2 ∧
      Mantissa mantissa (cs.takeWhile Char.isDigit)
        (readFraction (cs.dropWhile Char.isDigit)).1 := by
  have hwhole : IsDigits (cs.takeWhile Char.isDigit) := isDigits_takeWhile _
  have hcs : cs = cs.takeWhile Char.isDigit ++ cs.dropWhile Char.isDigit :=
    List.takeWhile_append_dropWhile.symm
  generalize cs.takeWhile Char.isDigit = whole at *
  generalize cs.dropWhile Char.isDigit = behind at *
  subst hcs
  unfold readFraction at hne ⊢
  split
  · rename_i more
    refine ⟨whole ++ '.' :: more.takeWhile Char.isDigit, ?_,
      .point hwhole (isDigits_takeWhile _) hne⟩
    simp
  · exact ⟨whole, rfl, .digits hwhole (by simpa using hne)⟩

theorem readExponent_length_le (cs : List Char) : (readExponent cs).2.length ≤ cs.length := by
  have hnil : [] <+: cs := ⟨cs, rfl⟩
  simpa using power_length_le .none hnil

/-- An exponent is not taken for a fraction. -/
theorem readFraction_of_power (hpower : Power power exponent) (hne : power ≠ [])
    (hbegins : power <+: cs) : readFraction cs = ([], cs) := by
  obtain ⟨more, rfl⟩ := hbegins
  cases hpower with
  | none => exact absurd rfl hne
  | digits hletter => rcases hletter with rfl | rfl <;> rfl

theorem readFraction_length_le (cs : List Char) : (readFraction cs).2.length ≤ cs.length := by
  unfold readFraction
  split
  · rename_i more
    have := (List.dropWhile_suffix Char.isDigit (l := more)).length_le
    simp only [List.length_cons]
    omega
  · exact Nat.le_refl _

theorem length_takeWhile_add_dropWhile (cs : List Char) :
    (cs.takeWhile Char.isDigit).length + (cs.dropWhile Char.isDigit).length = cs.length := by
  rw [← List.length_append, List.takeWhile_append_dropWhile]

/-- Digits and an exponent that a text begins with end where reading them ends, or earlier. -/
theorem digits_power_length_le (hdigits : IsDigits digits) (hpower : Power power exponent)
    (hbegins : digits ++ power <+: cs) :
    digits.length + power.length + (readExponent (cs.dropWhile Char.isDigit)).2.length ≤
      cs.length := by
  have hlength := length_takeWhile_add_dropWhile cs
  obtain ⟨htaken, hall⟩ := digits_append_begins hdigits hpower.digitsEnd hbegins
  by_cases hnone : power = []
  · have := htaken.length_le
    have := readExponent_length_le (cs.dropWhile Char.isDigit)
    rw [hnone, List.length_nil]
    omega
  · obtain ⟨rfl, hbehind⟩ := hall hnone
    have := power_length_le hpower hbehind
    omega

/-- A mantissa that a text begins with has its digits among those that are read, and no exponent
behind it reaches farther than what is read. -/
theorem mantissa_length_le (hmantissa : Mantissa mantissa whole fraction)
    (hpower : Power power exponent) (hbegins : mantissa ++ power <+: cs) :
    (cs.takeWhile Char.isDigit ≠ [] ∨ (readFraction (cs.dropWhile Char.isDigit)).1 ≠ []) ∧
      (mantissa ++ power).length +
        (readExponent (readFraction (cs.dropWhile Char.isDigit)).2).2.length ≤ cs.length := by
  have hlength := length_takeWhile_add_dropWhile cs
  rw [List.length_append]
  cases hmantissa with
  | digits hwhole hne =>
    obtain ⟨htaken, hall⟩ := digits_append_begins hwhole hpower.digitsEnd hbegins
    refine ⟨.inl fun h => hne (List.prefix_nil.1 (h ▸ htaken)), ?_⟩
    by_cases hnone : power = []
    · have := htaken.length_le
      have := readFraction_length_le (cs.dropWhile Char.isDigit)
      have := readExponent_length_le (readFraction (cs.dropWhile Char.isDigit)).2
      rw [hnone, List.length_nil]
      omega
    · rw [readFraction_of_power hpower hnone (hall hnone).2]
      exact digits_power_length_le hwhole hpower hbegins
  | point hwhole hfraction hne =>
    rw [List.append_assoc, List.cons_append] at hbegins
    obtain ⟨-, hall⟩ := digits_append_begins hwhole (Json.digitsEnd_cons (by decide)) hbegins
    obtain ⟨rfl, more, hmore⟩ := hall (List.cons_ne_nil _ _)
    have hbehind : fraction ++ power <+: (fraction ++ power) ++ more := List.prefix_append _ _
    have hfar := digits_power_length_le hfraction hpower hbehind
    have htaken := (digits_append_begins hfraction hpower.digitsEnd hbehind).1
    rw [← hmore] at hlength ⊢
    rw [List.cons_append] at hlength ⊢
    simp only [readFraction, List.length_append, List.length_cons] at hlength hfar ⊢
    refine ⟨hne.imp_right fun hne h => hne (List.prefix_nil.1 (h ▸ htaken)), ?_⟩
    omega

/-! ## Numerals -/

theorem Mantissa.exists_cons (h : Mantissa mantissa whole fraction) :
    ∃ c more, mantissa = c :: more ∧ (c.isDigit = true ∨ c = '.') := by
  cases h with
  | digits hwhole hne =>
    obtain ⟨c, more, rfl⟩ := List.exists_cons_of_ne_nil hne
    exact ⟨c, more, rfl, .inl (hwhole c (List.mem_cons_self ..))⟩
  | point hwhole hfraction hne =>
    cases whole with
    | nil => exact ⟨'.', fraction, rfl, .inr rfl⟩
    | cons c more => exact ⟨c, _, rfl, .inl (hwhole c (List.mem_cons_self ..))⟩

theorem Mantissa.signFree (h : Mantissa mantissa whole fraction) (rest : List Char) :
    SignFree (mantissa ++ rest) := by
  obtain ⟨c, more, rfl, hc⟩ := h.exists_cons
  rintro _ ⟨⟩
  rcases hc with hc | rfl
  · exact ⟨Json.ne_of_isDigit hc (by decide), Json.ne_of_isDigit hc (by decide)⟩
  · decide

/-- A mantissa is not taken for the word. -/
theorem Mantissa.not_infinityWord_begins (h : Mantissa mantissa whole fraction)
    (rest : List Char) : ¬ infinityWord <+: mantissa ++ rest := by
  obtain ⟨c, more, rfl, hc⟩ := h.exists_cons
  rintro ⟨_, hword⟩
  obtain rfl : 'I' = c := (List.cons.inj hword).1
  revert hc
  decide

theorem signFree_infinityWord (rest : List Char) : SignFree (infinityWord ++ rest) := by
  rintro _ ⟨⟩
  decide

/-- A numeral that a text begins with has the sign of the text, and behind it the word or a
mantissa with an exponent. -/
theorem exists_body (h : Spells p numeral) (hbegins : p <+: cs) :
    ∃ body, body <+: (readSign cs).2 ∧
      p.length + (readSign cs).2.length = body.length + cs.length ∧
      (body = infinityWord ∨ ∃ mantissa whole fraction power exponent,
        Mantissa mantissa whole fraction ∧ Power power exponent ∧ body = mantissa ++ power) := by
  obtain ⟨more, rfl⟩ := hbegins
  cases h with
  | @infinity sign negative hsign =>
    have hread := readSign_append hsign (signFree_infinityWord more)
    rw [List.append_assoc, hread]
    refine ⟨infinityWord, List.prefix_append _ _, ?_, .inl rfl⟩
    simp only [List.length_append]
    omega
  | @decimal sign mantissa whole fraction power negative exponent hsign hmantissa hpower =>
    have hread := readSign_append hsign (hmantissa.signFree (power ++ more))
    rw [List.append_assoc, List.append_assoc, hread]
    refine ⟨mantissa ++ power, ⟨more, List.append_assoc ..⟩, ?_,
      .inr ⟨_, _, _, _, _, hmantissa, hpower, rfl⟩⟩
    simp only [List.length_append]
    omega

/-- The reader takes a numeral that the text begins with, and none that it begins with is longer. -/
theorem leading?_spec (h : leading? cs = some (numeral, rest)) :
    ∃ p, cs = p ++ rest ∧ Spells p numeral ∧
      ∀ q other, q <+: cs → Spells q other → q.length ≤ p.length := by
  obtain ⟨sign, hcs, hsign⟩ := exists_sign cs
  have hlength := congrArg List.length hcs
  rw [List.length_append] at hlength
  simp only [leading?] at h
  split at h
  · rename_i hword
    obtain ⟨more, hmore⟩ := List.isPrefixOf_iff_prefix.1 hword
    obtain ⟨rfl, rfl⟩ := Prod.mk.inj (Option.some.inj h)
    refine ⟨sign ++ infinityWord, ?_, .infinity hsign, fun q other hq hother => ?_⟩
    · rw [← hmore, List.drop_left, List.append_assoc, hmore]
      exact hcs
    · obtain ⟨body, hbody, hq, rfl | ⟨_, _, _, _, _, hmantissa, -, rfl⟩⟩ := exists_body hother hq
      · rw [List.length_append]
        omega
      · obtain ⟨tail, htail⟩ := hbody
        rw [← htail, List.append_assoc] at hmore
        exact absurd ⟨more, hmore⟩ (hmantissa.not_infinityWord_begins _)
  · rename_i hword
    split at h
    · cases h
    rename_i hdigits
    obtain ⟨rfl, rfl⟩ := Prod.mk.inj (Option.some.inj h)
    rw [Bool.and_eq_true, List.isEmpty_iff, List.isEmpty_iff, not_and_or] at hdigits
    obtain ⟨mantissa, hmantissa, hspelled⟩ := exists_mantissa (readSign cs).2 hdigits
    obtain ⟨power, hpower, hspelled'⟩ := exists_power
      (readFraction ((readSign cs).2.dropWhile Char.isDigit)).2
    refine ⟨sign ++ (mantissa ++ power), ?_, .decimal hsign hspelled hspelled',
      fun q other hq hother => ?_⟩
    · rw [List.append_assoc, List.append_assoc, ← hpower, ← hmantissa]
      exact hcs
    · obtain ⟨body, hbody, hq, rfl | ⟨_, _, _, _, _, hmantissa', hpower', rfl⟩⟩ :=
        exists_body hother hq
      · exact absurd (List.isPrefixOf_iff_prefix.2 hbody) hword
      · have hfar := (mantissa_length_le hmantissa' hpower' hbody).2
        have hmantissaLength := congrArg List.length hmantissa
        have hpowerLength := congrArg List.length hpower
        simp only [List.length_append] at hq hfar hmantissaLength hpowerLength ⊢
        omega

theorem leading?_eq_none_iff (cs : List Char) :
    leading? cs = none ↔ ∀ p numeral, p <+: cs → ¬ Spells p numeral := by
  constructor
  · intro h p numeral hbegins hspells
    simp only [leading?] at h
    split at h
    · cases h
    rename_i hword
    split at h
    · rename_i hdigits
      obtain ⟨body, hbody, -, rfl | ⟨_, _, _, _, _, hmantissa, hpower, rfl⟩⟩ :=
        exists_body hspells hbegins
      · exact hword (List.isPrefixOf_iff_prefix.2 hbody)
      · have hne := (mantissa_length_le hmantissa hpower hbody).1
        simp only [Bool.and_eq_true, List.isEmpty_iff] at hdigits
        exact hne.elim (absurd hdigits.1) (absurd hdigits.2)
    · cases h
  · intro h
    cases hread : leading? cs with
    | none => rfl
    | some read =>
      obtain ⟨p, hp, hspells, -⟩ := leading?_spec hread
      exact absurd hspells (h p _ ⟨_, hp.symm⟩)

/-! ## Numerals that stand alone -/

theorem readExponent_of_power (h : Power power exponent) : readExponent power = (exponent, []) := by
  cases h with
  | none => rfl
  | @digits letter sign digits negative hletter hsign hdigits hne =>
    have hread := readSign_append hsign (signFree_of_digits hdigits hne [])
    have htaken := takeWhile_digits hdigits (Power.none.digitsEnd)
    have hleft := Json.dropWhile_digits hdigits (Power.none.digitsEnd)
    rw [List.append_nil] at hread htaken hleft
    rw [readExponent_cons hletter]
    simp [readPower, hread, htaken, hleft, hne]

theorem readFraction_power (h : Power power exponent) : readFraction power = ([], power) := by
  by_cases hnone : power = []
  · rw [hnone]
    rfl
  · exact readFraction_of_power h hnone (List.prefix_refl power)

/-- The parts of a mantissa are read as they are. -/
theorem read_mantissa (h : Mantissa mantissa whole fraction) (hpower : Power power exponent) :
    (mantissa ++ power).takeWhile Char.isDigit = whole ∧
      readFraction ((mantissa ++ power).dropWhile Char.isDigit) = (fraction, power) ∧
      (whole.isEmpty && fraction.isEmpty) = false := by
  cases h with
  | digits hwhole hne =>
    rw [takeWhile_digits hwhole hpower.digitsEnd, Json.dropWhile_digits hwhole hpower.digitsEnd]
    exact ⟨rfl, readFraction_power hpower, by simp [hne]⟩
  | point hwhole hfraction hne =>
    have hend : DigitsEnd ('.' :: (fraction ++ power)) := Json.digitsEnd_cons (by decide)
    rw [List.append_assoc, List.cons_append, takeWhile_digits hwhole hend,
      Json.dropWhile_digits hwhole hend, readFraction, takeWhile_digits hfraction hpower.digitsEnd,
      Json.dropWhile_digits hfraction hpower.digitsEnd]
    refine ⟨rfl, rfl, ?_⟩
    rw [Bool.and_eq_false_iff, List.isEmpty_eq_false_iff, List.isEmpty_eq_false_iff]
    exact hne

/-- A numeral that stands alone is taken whole. -/
theorem leading?_of_spells (h : Spells p numeral) : leading? p = some (numeral, []) := by
  cases h with
  | @infinity sign negative hsign =>
    have hread := readSign_append hsign (signFree_infinityWord [])
    rw [List.append_nil] at hread
    rw [leading?, hread]
    rfl
  | @decimal sign mantissa whole fraction power negative exponent hsign hmantissa hpower =>
    have hread := readSign_append hsign (hmantissa.signFree power)
    have hword : infinityWord.isPrefixOf (mantissa ++ power) = false := by
      rw [← Bool.not_eq_true, List.isPrefixOf_iff_prefix]
      exact hmantissa.not_infinityWord_begins power
    obtain ⟨hwhole, hfraction, hdigits⟩ := read_mantissa hmantissa hpower
    simp only [leading?, hread, hword, hwhole, hfraction, hdigits, readExponent_of_power hpower,
      Bool.false_eq_true, if_false]

end RecordQuery.Numeral
