/-
RecordQuery.Proofs.Json.Double — the JSON text of a double is read as a double.

The printer writes a double with the fewest digits that a correct reader takes
for it. The reader of JSON is not correct to the last bit, so what it finds may
be another double, but it finds one, in any context. In positional notation
there is nothing to multiply with; in scientific notation the product stays in
range because the digits of every double but the largest lie below the middle
of the two largest doubles. The largest double is looked at by itself.

Main statements:
* `readNumber_point`, `readNumber_scientific` — both notations, up to the scaling;
* `exists_readNumber_shortest` — the text of a double is read as a double.
-/
import RecordQuery.Double.Text
import RecordQuery.Proofs.Json.Number
import RecordQuery.Proofs.Json.Scale

namespace RecordQuery

/-- The digits of a decimal as they stand in JSON text. -/
def Decimal.jsonChars (d : Decimal) : List Char :=
  if -5 ≤ d.leadingPlace ∧ d.leadingPlace < 16 then d.positional ['.', '0'] else d.scientific

theorem FiniteDouble.jsonChars_eq (x : FiniteDouble) :
    x.jsonChars = signChars x.negative ++ (x.magnitude.shortest .toEven).jsonChars := rfl

namespace Json

variable {d : Decimal} {number : Nat} {exponent : Int} {negative : Bool}
  {digits others whole fraction more rest : List Char} {c : Char}

/-! ## Digits on both sides of the point -/

theorem digitValue_le (h : c.isDigit = true) : digitValue c ≤ 9 := by
  simp only [Char.isDigit, Bool.and_eq_true, decide_eq_true_eq] at h
  have : c.toNat ≤ 57 := h.2
  simp only [digitValue, Char.reduceToNat]
  omega

theorem ofDigitChars_lt (h : IsDigits digits) (number : Nat) :
    Nat.ofDigitChars 10 digits number < (number + 1) * 10 ^ digits.length := by
  induction digits generalizing number with
  | nil => simp [Nat.ofDigitChars_nil]
  | cons c digits ih =>
    have hc := digitValue_le (h c (List.mem_cons_self ..))
    have hle : number * 10 + digitValue c + 1 ≤ (number + 1) * 10 := by omega
    rw [ofDigitChars_cons, List.length_cons, Nat.pow_succ', ← Nat.mul_assoc]
    exact Nat.lt_of_lt_of_le (ih (fun d hd => h d (List.mem_cons_of_mem _ hd)) _)
      (Nat.mul_le_mul_right _ hle)

/-- Of digits of one width those that come first name the smaller number. -/
theorem ofDigitChars_lt_of_lt (hdigits : IsDigits digits) (hlength : digits.length = others.length)
    (h : digits < others) (number : Nat) :
    Nat.ofDigitChars 10 digits number < Nat.ofDigitChars 10 others number := by
  induction digits generalizing others number with
  | nil =>
    obtain rfl : others = [] := List.length_eq_zero_iff.1 hlength.symm
    exact absurd h (List.lt_irrefl [])
  | cons c digits ih =>
    cases others with
    | nil => cases hlength
    | cons d others =>
      have hrest : IsDigits digits := fun e he => hdigits e (List.mem_cons_of_mem _ he)
      rw [List.length_cons, List.length_cons, Nat.add_right_cancel_iff] at hlength
      rw [ofDigitChars_cons, ofDigitChars_cons]
      rcases List.cons_lt_cons_iff.1 h with hcd | ⟨rfl, htail⟩
      · -- The first digit decides, whatever the others are.
        have hc := hdigits c (List.mem_cons_self ..)
        have hvalue : digitValue c < digitValue d := by
          simp only [Char.isDigit, Bool.and_eq_true, decide_eq_true_eq] at hc
          have hlow : 48 ≤ c.toNat := hc.1
          have hlt : c.toNat < d.toNat := hcd
          simp only [digitValue, Char.reduceToNat]
          omega
        calc Nat.ofDigitChars 10 digits (number * 10 + digitValue c)
            < (number * 10 + digitValue c + 1) * 10 ^ digits.length :=
              ofDigitChars_lt hrest _
          _ ≤ (number * 10 + digitValue d) * 10 ^ others.length := by
              rw [hlength]
              exact Nat.mul_le_mul_right _ (by omega)
          _ ≤ Nat.ofDigitChars 10 others (number * 10 + digitValue d) :=
              mul_pow_le_ofDigitChars _ _
      · exact ih hrest hlength htail _

/-- Digits of one width that name one number are the same. -/
theorem digits_eq_of_ofDigitChars_eq (hdigits : IsDigits digits)
    (hothers : IsDigits others) (hlength : digits.length = others.length)
    (h : Nat.ofDigitChars 10 digits 0 = Nat.ofDigitChars 10 others 0) : digits = others := by
  refine List.le_antisymm (List.not_lt.1 fun hgt => ?_) (List.not_lt.1 fun hlt => ?_)
  · exact Nat.ne_of_gt (ofDigitChars_lt_of_lt hothers hlength.symm hgt 0) h
  · exact Nat.ne_of_lt (ofDigitChars_lt_of_lt hdigits hlength hlt 0) h

/-- Nineteen digits always fit. -/
theorem ofDigitChars_le_gatherLimit (h : IsDigits digits) (hlength : digits.length ≤ 19) :
    Nat.ofDigitChars 10 digits 0 ≤ gatherLimit := by
  have hpow : (0 + 1) * 10 ^ digits.length ≤ (0 + 1) * 10 ^ 19 :=
    Nat.mul_le_mul_left _ (Nat.pow_le_pow_right (by decide) hlength)
  exact Nat.le_of_lt (Nat.lt_of_lt_of_le (ofDigitChars_lt h 0) (Nat.le_trans hpow (by decide)))

theorem digitsEnd_cons (h : c.isDigit = false) : DigitsEnd (c :: rest) := by
  simpa [DigitsEnd] using h

/-- A short whole part and a fraction are gathered one after the other. -/
theorem readNumber_point (hwhole : IsDigits whole) (hpart : IsWholePart whole)
    (hlength : whole.length ≤ 19) (hfraction : IsDigits fraction) (hne : fraction ≠ [])
    (negative : Bool) (hrest : DigitsEnd rest) :
    readNumber negative (whole ++ '.' :: (fraction ++ rest)) =
      readTail negative (gather (Nat.ofDigitChars 10 whole 0) fraction).number
        (0 - (gather (Nat.ofDigitChars 10 whole 0) fraction).count) rest := by
  rw [readNumber_whole hwhole hpart (ofDigitChars_le_gatherLimit hwhole hlength) negative
    (digitsEnd_cons (by decide))]
  exact readFraction_digits hfraction hne _ _ hrest

theorem readTail_end (hrest : NumberEnd rest) :
    readTail negative number exponent rest = readScaled negative number exponent rest := by
  unfold readTail
  split
  · exact absurd rfl (hrest _ rfl).2.2.1
  · exact absurd rfl (hrest _ rfl).2.2.2
  · rfl

/-! ## Positional notation -/

theorem isDigits_zeros (count : Nat) : IsDigits (Decimal.zeros count) := by
  intro c hc
  rw [List.eq_of_mem_replicate hc]
  decide

theorem IsDigits.append {front back : List Char} (hfront : IsDigits front)
    (hback : IsDigits back) : IsDigits (front ++ back) := by
  intro c hc
  rcases List.mem_append.1 hc with hc | hc
  · exact hfront c hc
  · exact hback c hc

/-- A number in positional notation has a whole part and a fraction, which have the digits of the
number and perhaps zeros behind them. -/
structure IsPositional (d : Decimal) (whole fraction : List Char) : Prop where
  eq : d.positional ['.', '0'] = whole ++ '.' :: fraction
  isDigits_whole : IsDigits whole
  isDigits_fraction : IsDigits fraction
  ne_nil : fraction ≠ []
  value : ∃ k : Nat, Nat.ofDigitChars 10 (whole ++ fraction) 0 = d.digits * 10 ^ k ∧
    d.exponent = k - fraction.length

/-- A whole number has a nought behind the point. -/
theorem isPositional_whole (digits k : Nat) :
    IsPositional ⟨digits, .ofNat k⟩ (Nat.toDigits 10 digits ++ Decimal.zeros k) ['0'] where
  eq := by simp [Decimal.positional]
  isDigits_whole := (isDigits_toDigits digits).append (isDigits_zeros k)
  isDigits_fraction c hc := by
    rw [List.mem_singleton.1 hc]
    decide
  ne_nil := by simp
  value := by
    refine ⟨k + 1, ?_, by simp⟩
    have hzeros : Decimal.zeros k ++ ['0'] = List.replicate (k + 1) '0' := List.replicate_succ'.symm
    rw [List.append_assoc, hzeros, Nat.ofDigitChars_append, Nat.ofDigitChars_replicate_zero,
      Nat.ofDigitChars_ten_toDigits, Nat.mul_comm]

/-- A number below one has a nought before the point and all of its digits behind it. -/
theorem isPositional_below {digits k : Nat} (h : (Nat.toDigits 10 digits).length ≤ k + 1) :
    IsPositional ⟨digits, .negSucc k⟩ ['0']
      (Decimal.zeros (k + 1 - (Nat.toDigits 10 digits).length) ++ Nat.toDigits 10 digits) where
  eq := by simp [Decimal.positional, h]
  isDigits_whole c hc := by
    rw [List.mem_singleton.1 hc]
    decide
  isDigits_fraction := (isDigits_zeros _).append (isDigits_toDigits digits)
  ne_nil := by simp
  value := by
    refine ⟨0, ?_, ?_⟩
    · have hnought : Nat.ofDigitChars 10 ['0'] 0 = 0 := by decide
      simp only [Decimal.zeros]
      rw [Nat.ofDigitChars_append, Nat.ofDigitChars_append, Nat.ofDigitChars_replicate_zero,
        hnought, Nat.mul_zero, Nat.ofDigitChars_ten_toDigits, Nat.pow_zero, Nat.mul_one]
    · simp only [Decimal.zeros, List.length_append, List.length_replicate]
      omega

/-- In any other number the point stands between two of its digits. -/
theorem isPositional_between {digits k : Nat} (h : k + 1 < (Nat.toDigits 10 digits).length) :
    IsPositional ⟨digits, .negSucc k⟩
      ((Nat.toDigits 10 digits).take ((Nat.toDigits 10 digits).length - (k + 1)))
      ((Nat.toDigits 10 digits).drop ((Nat.toDigits 10 digits).length - (k + 1))) where
  eq := by simp [Decimal.positional, Nat.not_le.2 h]
  isDigits_whole c hc := isDigits_toDigits digits c (List.mem_of_mem_take hc)
  isDigits_fraction c hc := isDigits_toDigits digits c (List.mem_of_mem_drop hc)
  ne_nil hnil := by
    have hlength := congrArg List.length hnil
    simp only [List.length_drop, List.length_nil] at hlength
    omega
  value := by
    refine ⟨0, ?_, ?_⟩
    · rw [List.take_append_drop, Nat.ofDigitChars_ten_toDigits, Nat.pow_zero, Nat.mul_one]
    · simp only [List.length_drop]
      omega

/-- A number in positional notation has a short whole part. -/
theorem exists_positional_eq (hzero : d.digits = 0 → d.exponent = 0) (hplace : d.leadingPlace < 16) :
    ∃ whole fraction, IsPositional d whole fraction ∧ IsWholePart whole ∧ whole.length ≤ 19 := by
  obtain ⟨digits, exponent⟩ := d
  simp only [Decimal.leadingPlace, digitCount] at hplace
  have hpart := isWholePart_toDigits digits
  cases exponent with
  | ofNat k =>
    refine ⟨_, _, isPositional_whole digits k, ?_, ?_⟩
    · rcases hpart with hpart | ⟨c, more, heq, hc⟩
      · have hvalue := Nat.ofDigitChars_ten_toDigits (n := digits)
        rw [hpart] at hvalue
        have hk : k = 0 := by simpa using hzero hvalue.symm
        exact .inl (by rw [hpart, hk]; rfl)
      · exact .inr ⟨c, more ++ Decimal.zeros k, by rw [heq]; rfl, hc⟩
    · simp only [Int.ofNat_eq_natCast] at hplace
      simp only [Decimal.zeros, List.length_append, List.length_replicate]
      omega
  | negSucc k =>
    rcases Nat.lt_or_ge (k + 1) (Nat.toDigits 10 digits).length with hlt | hle
    · refine ⟨_, _, isPositional_between hlt, ?_, ?_⟩
      · rcases hpart with hpart | ⟨c, more, heq, hc⟩
        · rw [hpart] at hlt
          simp at hlt
        · refine .inr ⟨c, more.take ((Nat.toDigits 10 digits).length - (k + 1) - 1), ?_, hc⟩
          rw [heq, List.take_cons (by rw [← heq]; omega)]
      · simp only [List.length_take]
        omega
    · exact ⟨_, _, isPositional_below hle, .inl rfl, by simp⟩

/-! ## Scientific notation -/

/-- What the reader makes of scientific notation: the digits behind the first are gathered onto it,
and the exponent counts the places of those that were gathered. -/
def scientific? (d : Decimal) : Option Magnitude :=
  match Nat.toDigits 10 d.digits with
  | [] => none
  | c :: more =>
    let gathered := gather (digitValue c) more
    scale gathered.number (clampExponent (-gathered.count + d.leadingPlace))

/-- The digits behind the first, with a point if there are any. -/
def pointChars (digits : List Char) : List Char := if digits = [] then [] else '.' :: digits

theorem scientific_eq (hdigits : Nat.toDigits 10 d.digits = c :: more) :
    d.scientific = [c] ++ (pointChars more ++ 'e' :: exponentChars d.leadingPlace) := by
  cases hplace : d.leadingPlace <;> cases more <;>
    simp [Decimal.scientific, hdigits, hplace, pointChars, exponentChars]

theorem readNumber_mantissa (hall : IsDigits (c :: more)) (negative : Bool) (cs : List Char) :
    readNumber negative ([c] ++ (pointChars more ++ 'e' :: cs)) =
      readExponent negative (gather (digitValue c) more).number
        (-(gather (digitValue c) more).count) cs := by
  have hfirst : IsDigits [c] := fun e he => hall e (by simp [List.mem_singleton.1 he])
  have hmore : IsDigits more := fun e he => hall e (List.mem_cons_of_mem _ he)
  have hvalue : Nat.ofDigitChars 10 [c] 0 = digitValue c := by
    rw [ofDigitChars_cons, Nat.ofDigitChars_nil, Nat.zero_mul, Nat.zero_add]
  have hpart : IsWholePart [c] := by
    by_cases hc : c = '0'
    · exact .inl (by rw [hc])
    · exact .inr ⟨c, [], rfl, hc⟩
  have hletter : DigitsEnd ('e' :: cs) := digitsEnd_cons (by decide)
  rw [pointChars]
  split
  · rename_i hnil
    rw [hnil, List.nil_append, readNumber_whole hfirst hpart
      (ofDigitChars_le_gatherLimit hfirst (by simp)) negative hletter, hvalue]
    rfl
  · rename_i hnil
    show readNumber negative ([c] ++ '.' :: (more ++ 'e' :: cs)) = _
    rw [readNumber_point hfirst hpart (by simp) hmore hnil negative hletter, hvalue, Int.zero_sub]
    rfl

theorem readNumber_scientific (hplace : d.leadingPlace.natAbs ≤ 2147483647) (negative : Bool)
    (hrest : NumberEnd rest) :
    readNumber negative (d.scientific ++ rest) =
      match scientific? d with
      | some magnitude => .ok (.double ⟨negative, magnitude⟩, rest)
      | none => .error (.last .numberOutOfRange rest) := by
  have hall := isDigits_toDigits d.digits
  cases hdigits : Nat.toDigits 10 d.digits with
  | nil => exact absurd hdigits Nat.toDigits_ne_nil
  | cons c more =>
    rw [hdigits] at hall
    rw [scientific_eq hdigits, List.append_assoc, List.append_assoc]
    show readNumber negative ([c] ++ (pointChars more ++ 'e' :: (exponentChars _ ++ rest))) = _
    have hscientific : scientific? d = scale (gather (digitValue c) more).number
        (clampExponent (-(gather (digitValue c) more).count + d.leadingPlace)) := by
      simp only [scientific?, hdigits]
    rw [hscientific, readNumber_mantissa hall, readExponent_exponentChars hplace hrest.digitsEnd]
    rfl

/-! ## The size of the exponent -/

theorem pow_length_le_of_toDigits (hdigits : Nat.toDigits 10 number = c :: more) (hpos : 0 < number) :
    10 ^ more.length ≤ number := by
  rcases Nat.eq_zero_or_pos more.length with hzero | hmore
  · rw [hzero]
    exact hpos
  · have hlength : (Nat.toDigits 10 number).length = more.length + 1 := by rw [hdigits]; rfl
    by_contra hlt
    have := (Nat.length_toDigits_le_iff (by decide) hmore).2 (Nat.lt_of_not_le hlt)
    omega

theorem leadingPlace_eq (hdigits : Nat.toDigits 10 d.digits = c :: more) :
    d.leadingPlace = d.exponent + more.length := by
  rw [Decimal.leadingPlace, digitCount, hdigits, List.length_cons]
  omega

/-- The gathered number of a decimal below the limit is scaled within range. -/
theorem scientific?_isSome (hbelow : d.Below rangeLimit) : (scientific? d).isSome := by
  cases hdigits : Nat.toDigits 10 d.digits with
  | nil => exact absurd hdigits Nat.toDigits_ne_nil
  | cons c more =>
    have hall := isDigits_toDigits d.digits
    have hvalue := Nat.ofDigitChars_ten_toDigits (n := d.digits)
    rw [hdigits] at hall hvalue
    rw [ofDigitChars_cons, Nat.zero_mul, Nat.zero_add] at hvalue
    have hfirst : digitValue c ≤ gatherLimit :=
      Nat.le_trans (digitValue_le (hall c (List.mem_cons_self ..))) (by decide)
    have hgathered := gather_number_mul_le (digitValue c) more
    have hcount := gather_count_le (digitValue c) more
    rw [hvalue] at hgathered
    rw [scientific?, hdigits]
    refine scale_isSome (gather_number_le hfirst more) fun k hk => ?_
    generalize gather (digitValue c) more = gathered at *
    -- The power is at most the place of the last digit that was gathered.
    have hpower : k + (-d.exponent).toNat ≤
        more.length - gathered.count + d.exponent.toNat := by
      rw [leadingPlace_eq hdigits, clampExponent] at hk
      omega
    have hproduct : gathered.number * 10 ^ k * 10 ^ (-d.exponent).toNat <
        rangeLimit * 10 ^ (-d.exponent).toNat := by
      calc gathered.number * 10 ^ k * 10 ^ (-d.exponent).toNat
          = gathered.number * 10 ^ (k + (-d.exponent).toNat) := by rw [Nat.mul_assoc, ← Nat.pow_add]
        _ ≤ gathered.number * 10 ^ (more.length - gathered.count + d.exponent.toNat) :=
            Nat.mul_le_mul_left _ (Nat.pow_le_pow_right (by decide) hpower)
        _ = gathered.number * 10 ^ (more.length - gathered.count) * 10 ^ d.exponent.toNat := by
            rw [Nat.pow_add, ← Nat.mul_assoc]
        _ ≤ d.digits * 10 ^ d.exponent.toNat := Nat.mul_le_mul_right _ hgathered
        _ < rangeLimit * 10 ^ (-d.exponent).toNat := hbelow
    exact Nat.lt_of_mul_lt_mul_right hproduct

theorem leadingPlace_natAbs_le (hbelow : d.Below rangeLimit) (hexponent : -1074 ≤ d.exponent)
    (hzero : d.digits = 0 → d.exponent = 0) : d.leadingPlace.natAbs ≤ 2147483647 := by
  rcases Nat.eq_zero_or_pos d.digits with hdigits | hpos
  · have hplace : d.leadingPlace = 0 := by
      rw [Decimal.leadingPlace, hzero hdigits, hdigits]
      decide
    simp [hplace]
  · cases hdigits : Nat.toDigits 10 d.digits with
    | nil => exact absurd hdigits Nat.toDigits_ne_nil
    | cons c more =>
      rw [leadingPlace_eq hdigits]
      have hpower : 10 ^ (more.length + d.exponent.toNat) < 10 ^ (309 + (-d.exponent).toNat) := by
        calc 10 ^ (more.length + d.exponent.toNat)
            = 10 ^ more.length * 10 ^ d.exponent.toNat := Nat.pow_add ..
          _ ≤ d.digits * 10 ^ d.exponent.toNat :=
              Nat.mul_le_mul_right _ (pow_length_le_of_toDigits hdigits hpos)
          _ < rangeLimit * 10 ^ (-d.exponent).toNat := hbelow
          _ ≤ 10 ^ 309 * 10 ^ (-d.exponent).toNat := Nat.mul_le_mul_right _ rangeLimit_bounds.2
          _ = 10 ^ (309 + (-d.exponent).toNat) := (Nat.pow_add 10 309 (-d.exponent).toNat).symm
      have := (Nat.pow_lt_pow_iff_right (by decide)).1 hpower
      omega

/-! ## Doubles -/

theorem readNumber_positional (hzero : d.digits = 0 → d.exponent = 0) (hplace : d.leadingPlace < 16) :
    ∃ magnitude, ∀ negative rest, NumberEnd rest →
      readNumber negative (d.positional ['.', '0'] ++ rest) =
        .ok (.double ⟨negative, magnitude⟩, rest) := by
  obtain ⟨whole, fraction, ⟨heq, hwhole, hfraction, hne, -⟩, hpart, hlength⟩ :=
    exists_positional_eq hzero hplace
  have hnumber : (gather (Nat.ofDigitChars 10 whole 0) fraction).number ≤ gatherLimit :=
    gather_number_le (ofDigitChars_le_gatherLimit hwhole hlength) fraction
  have hscale : (scale (gather (Nat.ofDigitChars 10 whole 0) fraction).number
      (0 - (gather (Nat.ofDigitChars 10 whole 0) fraction).count)).isSome := by
    refine scale_isSome hnumber fun k hk => ?_
    have hk : k = 0 := by omega
    rw [hk, Nat.pow_zero, Nat.mul_one]
    exact Nat.lt_of_le_of_lt hnumber gatherLimit_lt
  obtain ⟨magnitude, hmagnitude⟩ := Option.isSome_iff_exists.1 hscale
  refine ⟨magnitude, fun negative rest hrest => ?_⟩
  rw [heq, List.append_assoc, List.cons_append,
    readNumber_point hwhole hpart hlength hfraction hne negative hrest.digitsEnd,
    readTail_end hrest, readScaled, hmagnitude]

/-- The largest double has seventeen digits, which are gathered completely. -/
theorem scientific_largest :
    (Magnitude.largest.shortest .toEven).leadingPlace.natAbs ≤ 2147483647 ∧
      (scientific? (Magnitude.largest.shortest .toEven)).isSome := by
  decide +kernel

/-- The JSON text of a double, without its sign, is read as a double wherever it stands. -/
theorem exists_readNumber_shortest (x : Magnitude) :
    ∃ magnitude, ∀ negative rest, NumberEnd rest →
      readNumber negative ((x.shortest .toEven).jsonChars ++ rest) =
        .ok (.double ⟨negative, magnitude⟩, rest) := by
  have hzero : (x.shortest .toEven).digits = 0 → (x.shortest .toEven).exponent = 0 :=
    Magnitude.exponent_shortest_of_digits_eq_zero
  rw [Decimal.jsonChars]
  split
  · rename_i hplace
    exact readNumber_positional hzero hplace.2
  · have hscientific : (x.shortest .toEven).leadingPlace.natAbs ≤ 2147483647 ∧
        (scientific? (x.shortest .toEven)).isSome := by
      rcases Nat.lt_or_ge x.units Magnitude.largest.units with hlt | hge
      · have hbelow := Magnitude.shortest_below .toEven hlt
        exact ⟨leadingPlace_natAbs_le hbelow (Magnitude.le_exponent_shortest x _) hzero,
          scientific?_isSome hbelow⟩
      · rw [Magnitude.eq_largest hge]
        exact scientific_largest
    obtain ⟨magnitude, hmagnitude⟩ := Option.isSome_iff_exists.1 hscientific.2
    refine ⟨magnitude, fun negative rest hrest => ?_⟩
    rw [readNumber_scientific hscientific.1 negative hrest, hmagnitude]

end Json

end RecordQuery
