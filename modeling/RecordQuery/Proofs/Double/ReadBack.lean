/-
RecordQuery.Proofs.Double.ReadBack — the shortest digits of a double name it.

What the search for the shortest digits finds on a grid reads back, as it was
tried; the exact decimal that closes the search reads back because a number that
a double holds is its own nearest double; and the zeros that are dropped at the
end change nothing, because a decimal is read by its value alone. So two doubles
with the same shortest digits are one.

Main statements:
* `Magnitude.ofRatio?_units` — what a double holds is rounded to it;
* `Decimal.toMagnitude?_mul_ten`, `Decimal.toMagnitude?_trim` — zeros at the end do not matter;
* `Magnitude.toMagnitude?_shortest` — the shortest digits are read back.
-/
import RecordQuery.Proofs.Double.Shortest

namespace RecordQuery

variable {n num den num' den' : Nat}

/-! ## Numbers that a double holds -/

/-- The bits that a double cannot keep are zero in a number that a double holds. -/
theorem Representable.two_pow_spareBits_dvd (h : Representable n) : 2 ^ spareBits n ∣ n := by
  obtain ⟨m, k, hm, -, rfl⟩ := h
  rcases Nat.eq_zero_or_pos m with rfl | hpos
  · rw [Nat.zero_mul]
    exact Nat.dvd_zero _
  · have hne : m * 2 ^ k ≠ 0 := Nat.ne_of_gt (Nat.mul_pos hpos (Nat.two_pow_pos k))
    have hlog : (m * 2 ^ k).log2 < 53 + k := by
      rw [Nat.log2_lt hne, Nat.pow_add]
      exact Nat.mul_lt_mul_of_pos_right hm (Nat.two_pow_pos k)
    have hspare : spareBits (m * 2 ^ k) ≤ k := by
      unfold spareBits
      omega
    exact Nat.dvd_trans (Nat.pow_dvd_pow 2 hspare) (Nat.dvd_mul_left _ _)

theorem Representable.lt_unitsLimit (h : Representable n) : n < unitsLimit := by
  obtain ⟨m, k, hm, hk, rfl⟩ := h
  rw [unitsLimit, Nat.pow_add]
  exact Nat.lt_of_lt_of_le (Nat.mul_lt_mul_of_pos_right hm (Nat.two_pow_pos k))
    (Nat.mul_le_mul_left _ (Nat.pow_le_pow_right (by decide) hk))

/-- A whole number is the one nearest to it. -/
theorem nearestEven_mul (n : Nat) (hden : 0 < den) : nearestEven (n * den) den = n := by
  simp only [nearestEven, Nat.mul_div_cancel n hden, Nat.mul_mod_left]
  rw [if_pos (by omega)]

namespace Magnitude

/-- A number that a double holds is not changed by rounding. -/
theorem roundedUnits_mul (h : Representable n) (hden : 0 < den) : roundedUnits (n * den) den = n := by
  obtain ⟨q, hq⟩ := h.two_pow_spareBits_dvd
  have hproduct : n * den = q * (den * 2 ^ spareBits n) := by
    calc n * den = 2 ^ spareBits n * q * den := by rw [← hq]
      _ = q * (den * 2 ^ spareBits n) := by ring
  simp only [roundedUnits, Nat.mul_div_cancel n hden]
  rw [hproduct, nearestEven_mul q (Nat.mul_pos hden (Nat.two_pow_pos _)), Nat.mul_comm]
  exact hq.symm

/-- The double nearest to what a double holds is this double. -/
theorem ofRatio?_units (x : Magnitude) (hden : 0 < den) : ofRatio? (x.units * den) den = some x := by
  have hrounded := roundedUnits_mul x.representable hden
  obtain ⟨y, hy⟩ := Option.isSome_iff_exists.1 ((ofRatio?_isSome_iff (x.units * den) den).2
    (hrounded.symm ▸ x.representable.lt_unitsLimit))
  rw [hy, eq_of_units ((units_of_ofRatio? hy).trans hrounded)]

/-- The nearest double depends on the quotient alone. -/
theorem ofRatio?_congr (hden : 0 < den) (hden' : 0 < den') (h : num * den' = num' * den) :
    ofRatio? num den = ofRatio? num' den' := by
  have hrounded : roundedUnits num den = roundedUnits num' den' :=
    Nat.le_antisymm (roundedUnits_mono hden hden' (Nat.le_of_eq h))
      (roundedUnits_mono hden' hden (Nat.le_of_eq h.symm))
  simp only [ofRatio?, hrounded]

/-- The power of ten 310 is beyond every double. -/
theorem ofRatio?_power_eq_none : ofRatio? (10 ^ 310 * unitsPerOne) 1 = none := by
  decide +kernel

end Magnitude

/-! ## Decimals -/

namespace Decimal

variable {digits : Nat}

theorem digitCount_mul_ten (h : 0 < digits) : digitCount (digits * 10) = digitCount digits + 1 := by
  unfold digitCount
  rw [Nat.toDigits_of_base_le (by decide) (by omega)]
  simp

/-- A zero more at the end with an exponent less by one is the same quotient. -/
theorem roundExactly_mul_ten (digits : Nat) (exponent : Int) :
    roundExactly (digits * 10) exponent = roundExactly digits (exponent + 1) := by
  rcases exponent with k | _ | k
  · show Magnitude.ofRatio? (digits * 10 * 10 ^ k * unitsPerOne) 1 =
      Magnitude.ofRatio? (digits * 10 ^ (k + 1) * unitsPerOne) 1
    rw [Nat.pow_succ', Nat.mul_assoc digits]
  · refine Magnitude.ofRatio?_congr (Nat.pow_pos (by decide)) Nat.one_pos ?_
    ring
  · refine Magnitude.ofRatio?_congr (Nat.pow_pos (by decide)) (Nat.pow_pos (by decide)) ?_
    ring

/-- What has more than 310 places before the point is beyond every double. -/
theorem roundExactly_eq_none {k : Nat} (hdigits : 0 < digits) (hk : 310 ≤ k) :
    roundExactly digits (.ofNat k) = none := by
  by_contra hsome
  have hle := Nat.le_trans (Nat.pow_le_pow_right (show 10 > 0 by decide) hk)
    (Nat.le_mul_of_pos_left (10 ^ k) hdigits)
  have hunits := Nat.mul_le_mul_right unitsPerOne hle
  have hpower := Magnitude.ofRatio?_isSome_of_le Nat.one_pos Nat.one_pos
    (Nat.mul_le_mul_right 1 hunits) (Option.isSome_iff_ne_none.2 hsome)
  rw [Magnitude.ofRatio?_power_eq_none] at hpower
  cases hpower

/-- A zero more at the end with an exponent less by one is read alike. Where the exponent is the
first that is refused unread, the number without it is refused by its size. -/
theorem toMagnitude?_mul_ten (digits : Nat) (exponent : Int) :
    toMagnitude? ⟨digits * 10, exponent⟩ = toMagnitude? ⟨digits, exponent + 1⟩ := by
  rcases Nat.eq_zero_or_pos digits with rfl | hpos
  · simp [toMagnitude?]
  have hne : digits ≠ 0 := Nat.ne_of_gt hpos
  have hplace : leadingPlace ⟨digits * 10, exponent⟩ = leadingPlace ⟨digits, exponent + 1⟩ := by
    simp only [leadingPlace, digitCount_mul_ten hpos]
    omega
  simp only [toMagnitude?, hplace, if_neg hne, if_neg (show ¬ digits * 10 = 0 by omega)]
  by_cases hlarge : 400 < exponent
  · rw [if_pos hlarge, if_pos (by omega)]
  by_cases hedge : exponent = 400
  · subst hedge
    have hleft : roundExactly (digits * 10) 400 = none :=
      roundExactly_eq_none (k := 400) (by omega) (by decide)
    have hnot : ¬ leadingPlace ⟨digits, 400 + 1⟩ < -400 := by
      simp only [leadingPlace]
      omega
    rw [if_neg (by decide), if_neg hnot, hleft, if_pos (by decide)]
  · rw [if_neg hlarge, if_neg (show ¬ 400 < exponent + 1 by omega), roundExactly_mul_ten]

theorem toMagnitude?_mul_pow (digits : Nat) (exponent : Int) (k : Nat) :
    toMagnitude? ⟨digits * 10 ^ k, exponent⟩ = toMagnitude? ⟨digits, exponent + k⟩ := by
  induction k generalizing exponent with
  | zero => simp
  | succ k ih =>
    rw [Nat.pow_succ, ← Nat.mul_assoc, toMagnitude?_mul_ten, ih]
    congr 2
    push_cast
    ring

theorem toMagnitude?_dropZeros (budget : Nat) (d : Decimal) :
    (dropZeros budget d).toMagnitude? = d.toMagnitude? := by
  induction budget generalizing d with
  | zero => rfl
  | succ budget ih =>
    rw [dropZeros]
    split
    · rename_i hzero
      have hdigits : d.digits / 10 * 10 = d.digits := by omega
      rw [ih, ← toMagnitude?_mul_ten, hdigits]
    · rfl

/-- Zeros at the end do not matter to what a decimal is read as. -/
theorem toMagnitude?_trim (d : Decimal) : d.trim.toMagnitude? = d.toMagnitude? := by
  rw [trim]
  split
  · rename_i hzero
    rw [toMagnitude?, toMagnitude?, if_pos rfl, if_pos hzero]
  · exact toMagnitude?_dropZeros _ d

end Decimal

/-! ## The digits of a double -/

namespace Magnitude

/-- Three factors of five are worth more than two digits. -/
theorem lt_digitCount_mul_five_pow {j k : Nat} (hn : 0 < n) (h : 3 * j ≤ k) :
    2 * j < digitCount (n * 5 ^ k) := by
  have hpower : 10 ^ (2 * j) ≤ 5 ^ k :=
    calc 10 ^ (2 * j) = (10 ^ 2) ^ j := Nat.pow_mul 10 2 j
      _ ≤ (5 ^ 3) ^ j := Nat.pow_le_pow_left (by decide) _
      _ = 5 ^ (3 * j) := (Nat.pow_mul 5 3 j).symm
      _ ≤ 5 ^ k := Nat.pow_le_pow_right (by decide) h
  have hle : 10 ^ (2 * j) ≤ n * 5 ^ k := Nat.le_trans hpower (Nat.le_mul_of_pos_left _ hn)
  exact (Nat.pow_lt_pow_iff_right (by decide)).1
    (Nat.lt_of_le_of_lt hle (Decimal.lt_pow_digitCount _))

/-- The exact expansion of a double is long enough not to be taken for zero. -/
theorem digitCount_exact (h : 0 < n) : 675 ≤ digitCount (n * 5 ^ 1074) :=
  have hcount := lt_digitCount_mul_five_pow h (show 3 * 337 ≤ 1074 by decide)
  hcount

/-- The exact expansion of a double is read back. -/
theorem toMagnitude?_exactDecimal (x : Magnitude) : x.exactDecimal.toMagnitude? = some x := by
  have hexact : x.exactDecimal = ⟨x.units * 5 ^ 1074, .negSucc 1073⟩ := rfl
  rw [hexact, Decimal.toMagnitude?]
  split
  · rename_i hzero
    have hunits : x.units = 0 :=
      (Nat.mul_eq_zero.1 hzero).resolve_right (Nat.ne_of_gt (@Nat.pow_pos 5 1074 (by decide)))
    exact congrArg some (eq_of_units hunits.symm)
  · rename_i hne
    have hpos : 0 < x.units := by
      refine Nat.pos_of_ne_zero fun hzero => hne ?_
      simp only [hzero, Nat.zero_mul]
    have hcount := digitCount_exact hpos
    have hsmall : ¬ 400 < Int.negSucc 1073 := by decide
    have hplace : ¬ Decimal.leadingPlace ⟨x.units * 5 ^ 1074, .negSucc 1073⟩ < -400 := by
      simp only [Decimal.leadingPlace]
      omega
    rw [if_neg hsmall, if_neg hplace]
    show ofRatio? (x.units * 5 ^ 1074 * unitsPerOne) (10 ^ (1073 + 1)) = some x
    rw [show 1073 + 1 = 1074 from rfl, Nat.mul_right_comm, Nat.mul_assoc, unitsPerOne_mul_five_pow]
    exact ofRatio?_units x (@Nat.pow_pos 10 1074 (by decide))

/-- The shortest digits of a double are read back. -/
theorem toMagnitude?_shortest (x : Magnitude) (tie : Tie) :
    (x.shortest tie).toMagnitude? = some x := by
  simp only [shortest]
  rw [Decimal.toMagnitude?_trim]
  generalize hfound : List.findSome? (fun (more : Nat) =>
    x.onGrid tie (x.leadingPlace - (more : Int))) (List.range 17) = found
  cases found with
  | none => exact toMagnitude?_exactDecimal x
  | some d =>
    obtain ⟨more, -, hd⟩ := List.exists_of_findSome?_eq_some hfound
    exact (onGrid_reads hd).1

end Magnitude

end RecordQuery
