/-
RecordQuery.Proofs.Double.Nearest — rounding goes to the nearest double.

What a decimal is rounded to is said here without the steps that find it: of
all doubles it lies nearest to the exact value, and of two equally near it has
the even significand. One target is added beyond the largest double, the next
power of two; what goes there overflows. At most one double fits, and rounding
finds it. It rounds on the grid of the binade in which the value lies, and every
target from the start of that binade on lies on this grid; targets below are
farther off than the start itself.

Main statements:
* `NearestTarget.unique` — at most one target is the nearest;
* `Magnitude.nearestTarget_ofRatio?`, `Decimal.nearestTarget_toMagnitude?` — rounding finds it;
* `Double.Rounds.unique`, `Numeral.rounds_toDouble` — what this says of doubles.
-/
import RecordQuery.Double.Numeral
import RecordQuery.Proofs.Double.ReadBack
import Mathlib

namespace RecordQuery

/-! ## The nearest target -/

/-- The numbers of units to which rounding goes: those that a double holds, and the first power of
two beyond them, which stands for an infinity. -/
def Target (n : Nat) : Prop := Representable n ∨ n = unitsLimit

/-- Of all targets `n` lies nearest to `q`. Where another one lies equally near, `n` has the even
significand: it is a multiple of twice the gap between the two. -/
structure NearestTarget (q : ℚ) (n : Nat) : Prop where
  target : Target n
  least : ∀ m : Nat, Target m → |q - n| ≤ |q - m|
  even : ∀ m : Nat, Target m → m ≠ n → |q - m| = |q - n| → 2 * ((m : Int) - n).natAbs ∣ n

theorem Target.le_unitsLimit {n : Nat} (h : Target n) : n ≤ unitsLimit := by
  rcases h with h | h
  · exact Nat.le_of_lt h.lt_unitsLimit
  · exact Nat.le_of_eq h

/-- At most one target is the nearest. -/
theorem NearestTarget.unique {q : ℚ} {m n : Nat} (hm : NearestTarget q m)
    (hn : NearestTarget q n) : m = n := by
  by_contra hne
  have hdistance : |q - m| = |q - n| := le_antisymm (hm.least n hn.target) (hn.least m hm.target)
  -- Both would be multiples of twice their difference, and so would the difference.
  have hn' := Int.natCast_dvd_natCast.2 (hn.even m hm.target hne hdistance)
  have hm' := Int.natCast_dvd_natCast.2 (hm.even n hn.target (Ne.symm hne) hdistance.symm)
  rw [← Int.natAbs_neg, neg_sub] at hm'
  have hdvd := Int.natAbs_dvd_natAbs.2 (dvd_sub hm' hn')
  rw [Int.natAbs_natCast] at hdvd
  have := Nat.le_of_dvd (by omega) hdvd
  omega

/-- Beyond the range the nearest target is its end. -/
theorem nearestTarget_unitsLimit {q : ℚ} (h : (unitsLimit : ℚ) ≤ q) :
    NearestTarget q unitsLimit where
  target := .inr rfl
  least m hm := by
    have hle : (m : ℚ) ≤ unitsLimit := by exact_mod_cast hm.le_unitsLimit
    rw [abs_of_nonneg (by linarith), abs_of_nonneg (by linarith)]
    linarith
  even m hm hne hdistance := by
    have hle : (m : ℚ) ≤ unitsLimit := by exact_mod_cast hm.le_unitsLimit
    rw [abs_of_nonneg (by linarith), abs_of_nonneg (by linarith)] at hdistance
    exact absurd (by exact_mod_cast (by linarith : (m : ℚ) = unitsLimit)) hne

/-- Below half a unit the nearest target is zero. -/
theorem nearestTarget_zero {q : ℚ} (hpos : 0 ≤ q) (h : q < 1 / 2) : NearestTarget q 0 := by
  have hfar (m : Nat) (hm : m ≠ 0) : |q - (0 : Nat)| < |q - m| := by
    have hone : (1 : ℚ) ≤ m := by exact_mod_cast Nat.one_le_iff_ne_zero.2 hm
    rw [Nat.cast_zero, sub_zero, abs_of_nonneg hpos, abs_of_nonpos (by linarith)]
    linarith
  refine ⟨.inl representable_zero, fun m _ => ?_, fun m _ hne hdistance => ?_⟩
  · rcases eq_or_ne m 0 with rfl | hm
    · exact le_refl _
    · exact le_of_lt (hfar m hm)
  · exact absurd hdistance (ne_of_gt (hfar m hne))

/-! ## Rounding on a grid -/

section Grid

variable {num den : Nat}

/-- Rounding to a whole number goes half a step at most, and to an even number if it does. -/
theorem nearestEven_spec (num : Nat) (hden : 0 < den) :
    2 * num ≤ 2 * (den * nearestEven num den) + den ∧
      2 * (den * nearestEven num den) ≤ 2 * num + den ∧
      (2 * num = 2 * (den * nearestEven num den) + den ∨
        2 * (den * nearestEven num den) = 2 * num + den → nearestEven num den % 2 = 0) := by
  have hnum := Nat.div_add_mod num den
  have hrest := Nat.mod_lt num hden
  simp only [nearestEven]
  split
  · omega
  split
  · rw [Nat.mul_add, Nat.mul_one]
    omega
  · rcases Nat.mod_two_eq_zero_or_one (num / den) with heven | hodd
    · rw [heven, Nat.add_zero]
      omega
    · rw [hodd, Nat.mul_add, Nat.mul_one]
      omega

theorem abs_sub_nearestEven_le (num : Nat) (hden : 0 < den) :
    |(num : ℚ) / den - nearestEven num den| ≤ 1 / 2 := by
  obtain ⟨hupper, hlower, -⟩ := nearestEven_spec num hden
  have hdenQ : (0 : ℚ) < den := by exact_mod_cast hden
  have hupperQ : (2 : ℚ) * num ≤ 2 * (den * nearestEven num den) + den := by exact_mod_cast hupper
  have hlowerQ : (2 : ℚ) * (den * nearestEven num den) ≤ 2 * num + den := by exact_mod_cast hlower
  have hle : (num : ℚ) / den ≤ nearestEven num den + 1 / 2 := by
    rw [div_le_iff₀ hdenQ]
    linarith
  have hge : (nearestEven num den : ℚ) - 1 / 2 ≤ (num : ℚ) / den := by
    rw [le_div_iff₀ hdenQ]
    linarith
  rw [abs_le]
  constructor <;> linarith

/-- Half a step leads to an even number. -/
theorem nearestEven_mod_two (num : Nat) (hden : 0 < den)
    (h : |(num : ℚ) / den - nearestEven num den| = 1 / 2) : nearestEven num den % 2 = 0 := by
  have hdenQ : (0 : ℚ) < den := by exact_mod_cast hden
  refine (nearestEven_spec num hden).2.2 ?_
  rcases (abs_eq (by norm_num)).1 h with h | h <;>
    rw [sub_eq_iff_eq_add, div_eq_iff hdenQ.ne'] at h
  · left
    have : (2 : ℚ) * num = 2 * (den * nearestEven num den) + den := by linarith
    exact_mod_cast this
  · right
    have : (2 : ℚ) * (den * nearestEven num den) = 2 * num + den := by linarith
    exact_mod_cast this

/-- A whole number at most half a step away has no nearer one, and only a neighbour is as near, in
which case the step is a half. -/
theorem least_of_abs_sub_le {x : ℚ} {w k : Nat} (hhalf : |x - w| ≤ 1 / 2) (hne : k ≠ w) :
    |x - w| ≤ |x - k| ∧
      (|x - k| = |x - w| → |x - w| = 1 / 2 ∧ ((k : Int) - w).natAbs = 1) := by
  have hpos : 1 ≤ ((k : Int) - w).natAbs := by omega
  have hcast : (((k : Int) - w).natAbs : ℚ) = |(k : ℚ) - w| := by
    rw [Nat.cast_natAbs]
    push_cast
    rfl
  have hone : (1 : ℚ) ≤ |(k : ℚ) - w| := by
    rw [← hcast]
    exact_mod_cast hpos
  have htriangle : |(k : ℚ) - w| ≤ |x - w| + |x - k| := by
    rw [abs_sub_comm x k, add_comm]
    exact abs_sub_le _ _ _
  refine ⟨by linarith, fun heq => ⟨by linarith, ?_⟩⟩
  have hle : (((k : Int) - w).natAbs : ℚ) ≤ 1 := by
    rw [hcast]
    linarith
  have : ((k : Int) - w).natAbs ≤ 1 := by exact_mod_cast hle
  omega

/-- The distance to a point of a grid, in steps of the grid. -/
theorem abs_sub_mul_eq (x : ℚ) {gap : Nat} (hgap : 0 < gap) (k : Nat) :
    |x - (k * gap : Nat)| = |x / gap - k| * gap := by
  have hgapQ : (0 : ℚ) < gap := by exact_mod_cast hgap
  rw [← abs_of_pos hgapQ, ← abs_mul, abs_of_pos hgapQ, sub_mul, div_mul_cancel₀ _ hgapQ.ne']
  push_cast
  rfl

/-- No other point of the grid on which a quotient is rounded lies nearer, and where one lies
equally near the point found is an even one. -/
theorem roundedUnits_grid (num : Nat) (hden : 0 < den) {m : Nat}
    (hgrid : 2 ^ spareBits (num / den) ∣ m) (hne : m ≠ Magnitude.roundedUnits num den) :
    |(num : ℚ) / den - Magnitude.roundedUnits num den| ≤ |(num : ℚ) / den - m| ∧
      (|(num : ℚ) / den - m| = |(num : ℚ) / den - Magnitude.roundedUnits num den| →
        2 * ((m : Int) - Magnitude.roundedUnits num den).natAbs ∣
          Magnitude.roundedUnits num den) := by
  simp only [Magnitude.roundedUnits] at hne ⊢
  have hgap : 0 < 2 ^ spareBits (num / den) := Nat.two_pow_pos _
  generalize 2 ^ spareBits (num / den) = gap at *
  have hfine : 0 < den * gap := Nat.mul_pos hden hgap
  have hsteps : (num : ℚ) / den / gap = (num : ℚ) / (den * gap : Nat) := by
    rw [div_div]
    push_cast
    rfl
  obtain ⟨k, rfl⟩ := hgrid
  rw [Nat.mul_comm gap k] at hne ⊢
  rw [abs_sub_mul_eq _ hgap, abs_sub_mul_eq _ hgap, hsteps]
  have hhalf := abs_sub_nearestEven_le num hfine
  have heven := nearestEven_mod_two num hfine
  generalize nearestEven num (den * gap) = w at *
  have hgapQ : (0 : ℚ) < gap := by exact_mod_cast hgap
  obtain ⟨hleast, htie⟩ := least_of_abs_sub_le hhalf fun h : k = w => hne (by rw [h])
  refine ⟨mul_le_mul_of_nonneg_right hleast hgapQ.le, fun heq => ?_⟩
  obtain ⟨hstep, hnext⟩ := htie (mul_right_cancel₀ hgapQ.ne' heq)
  have hdifference : ((k * gap : Nat) - (w * gap : Nat) : Int).natAbs = gap := by
    rw [Nat.cast_mul, Nat.cast_mul, ← Int.sub_mul, Int.natAbs_mul, hnext, Nat.one_mul,
      Int.natAbs_natCast]
  rw [hdifference]
  exact Nat.mul_dvd_mul_right (Nat.dvd_of_mod_eq_zero (heven hstep)) gap

/-- From the start of a binade on, every target lies on its grid. -/
theorem Target.two_pow_dvd {m s : Nat} (h : Target m) (hm : 2 ^ (52 + s) ≤ m) : 2 ^ s ∣ m := by
  rcases h with h | h
  · have hlog : 52 + s ≤ m.log2 := (Nat.le_log2 (by have := Nat.two_pow_pos (52 + s); omega)).2 hm
    refine Nat.dvd_trans (Nat.pow_dvd_pow 2 ?_) h.two_pow_spareBits_dvd
    simp only [spareBits]
    omega
  · rw [h, unitsLimit] at hm ⊢
    have := (Nat.pow_le_pow_iff_right (by decide)).1 hm
    exact Nat.pow_dvd_pow 2 (by omega)

/-- A quotient with spare bits lies at the start of its binade or behind it. -/
theorem two_pow_le_quotient (num : Nat) (hden : 0 < den) (hspare : 0 < spareBits (num / den)) :
    ((2 ^ (52 + spareBits (num / den)) : Nat) : ℚ) ≤ (num : ℚ) / den := by
  have hdenQ : (0 : ℚ) < den := by exact_mod_cast hden
  have hstart : 2 ^ (52 + spareBits (num / den)) ≤ num / den := by
    rw [Nat.pow_add, ← Nat.le_div_iff_mul_le (Nat.two_pow_pos _)]
    exact two_pow_le_div_spareBits hspare
  rw [le_div_iff₀ hdenQ]
  exact_mod_cast (Nat.le_div_iff_mul_le hden).1 hstart

/-- A target off the grid lies below the binade, farther off than the start of it. -/
theorem roundedUnits_lt_of_not_dvd (num : Nat) (hden : 0 < den) {m : Nat} (hm : Target m)
    (hoff : ¬ 2 ^ spareBits (num / den) ∣ m) :
    |(num : ℚ) / den - Magnitude.roundedUnits num den| < |(num : ℚ) / den - m| := by
  have hspare : 0 < spareBits (num / den) := by
    by_contra hnone
    rw [Nat.eq_zero_of_not_pos hnone] at hoff
    exact hoff (Nat.one_dvd m)
  have hstart := two_pow_le_quotient num hden hspare
  have hbelow : m < 2 ^ (52 + spareBits (num / den)) := by
    by_contra hle
    exact hoff (hm.two_pow_dvd (Nat.le_of_not_lt hle))
  have hbelowQ : (m : ℚ) < (2 ^ (52 + spareBits (num / den)) : Nat) := by exact_mod_cast hbelow
  have hleast : |(num : ℚ) / den - Magnitude.roundedUnits num den| ≤
      |(num : ℚ) / den - (2 ^ (52 + spareBits (num / den)) : Nat)| := by
    rcases eq_or_ne (2 ^ (52 + spareBits (num / den))) (Magnitude.roundedUnits num den) with
      heq | hne
    · rw [heq]
    · exact (roundedUnits_grid num hden (Nat.pow_dvd_pow 2 (Nat.le_add_left _ _)) hne).1
  refine lt_of_le_of_lt hleast ?_
  rw [abs_of_nonneg (by linarith), abs_of_nonneg (by linarith)]
  linarith

/-- No target lies nearer than the number that a quotient is rounded to. -/
theorem roundedUnits_least (num : Nat) (hden : 0 < den) {m : Nat} (hm : Target m) :
    |(num : ℚ) / den - Magnitude.roundedUnits num den| ≤ |(num : ℚ) / den - m| := by
  by_cases hgrid : 2 ^ spareBits (num / den) ∣ m
  · rcases eq_or_ne m (Magnitude.roundedUnits num den) with rfl | hne
    · exact le_refl _
    · exact (roundedUnits_grid num hden hgrid hne).1
  · exact (roundedUnits_lt_of_not_dvd num hden hm hgrid).le

/-- In range a quotient is rounded to the nearest target. -/
theorem nearestTarget_roundedUnits (num : Nat) (hden : 0 < den)
    (htarget : Target (Magnitude.roundedUnits num den)) :
    NearestTarget ((num : ℚ) / den) (Magnitude.roundedUnits num den) where
  target := htarget
  least m hm := roundedUnits_least num hden hm
  even m hm hne hdistance := by
    by_cases hgrid : 2 ^ spareBits (num / den) ∣ m
    · exact (roundedUnits_grid num hden hgrid hne).2 hdistance
    · exact absurd hdistance (roundedUnits_lt_of_not_dvd num hden hm hgrid).ne'

/-- What is rounded to a number beyond the range lies beyond the range itself. -/
theorem unitsLimit_le_of_lt_roundedUnits (num : Nat) (hden : 0 < den)
    (h : unitsLimit < Magnitude.roundedUnits num den) : (unitsLimit : ℚ) ≤ (num : ℚ) / den := by
  by_contra hlt
  have hleast := roundedUnits_least num hden (m := unitsLimit) (.inr rfl)
  have hQ : (unitsLimit : ℚ) < Magnitude.roundedUnits num den := by exact_mod_cast h
  rw [abs_of_nonpos (by linarith), abs_of_nonpos (by linarith)] at hleast
  linarith

end Grid

/-! ## Doubles -/

/-- The target to which rounding went: what is out of range went to the end. -/
def targetOf (result : Option Magnitude) : Nat := (result.map Magnitude.units).getD unitsLimit

theorem Magnitude.nearestTarget_ofRatio? (num : Nat) {den : Nat} (hden : 0 < den) :
    NearestTarget ((num : ℚ) / den) (targetOf (ofRatio? num den)) := by
  rw [ofRatio?]
  split
  · rename_i hrange
    exact nearestTarget_roundedUnits num hden (.inl (representable_roundedUnits hrange))
  · rename_i hrange
    show NearestTarget _ unitsLimit
    rcases Nat.lt_or_eq_of_le (Nat.le_of_not_lt hrange) with hlt | heq
    · exact nearestTarget_unitsLimit (unitsLimit_le_of_lt_roundedUnits num hden hlt)
    · exact heq ▸ nearestTarget_roundedUnits num hden (.inr heq.symm)

namespace Decimal

/-- The exact value of a decimal. -/
def value (d : Decimal) : ℚ := d.digits * (10 : ℚ) ^ d.exponent

variable {digits : Nat} {exponent : Int}

theorem value_nonneg (d : Decimal) : 0 ≤ d.value := by
  unfold value
  positivity

/-- The value in units of any size, as a quotient of whole numbers. -/
theorem value_ofNat_mul (digits k units : Nat) :
    value ⟨digits, .ofNat k⟩ * units = ((digits * 10 ^ k * units : Nat) : ℚ) / (1 : Nat) := by
  simp [value]

theorem value_negSucc_mul (digits k units : Nat) :
    value ⟨digits, .negSucc k⟩ * units =
      ((digits * units : Nat) : ℚ) / (10 ^ (k + 1) : Nat) := by
  simp only [value, zpow_negSucc]
  push_cast
  field_simp

theorem nearestTarget_roundExactly (digits : Nat) (exponent : Int) :
    NearestTarget (value ⟨digits, exponent⟩ * unitsPerOne)
      (targetOf (roundExactly digits exponent)) := by
  cases exponent with
  | ofNat k =>
    rw [value_ofNat_mul]
    exact Magnitude.nearestTarget_ofRatio? _ Nat.one_pos
  | negSucc k =>
    rw [value_negSucc_mul]
    exact Magnitude.nearestTarget_ofRatio? _ (Nat.pow_pos (by decide))

theorem value_ge (hdigits : digits ≠ 0) (k : Nat) (hexponent : k ≤ exponent) :
    (10 : ℚ) ^ k ≤ value ⟨digits, exponent⟩ := by
  have hone : (1 : ℚ) ≤ digits := by exact_mod_cast Nat.one_le_iff_ne_zero.2 hdigits
  calc (10 : ℚ) ^ k = (10 : ℚ) ^ (k : Int) := (zpow_natCast _ _).symm
    _ ≤ (10 : ℚ) ^ exponent := zpow_le_zpow_right₀ (by norm_num) hexponent
    _ ≤ value ⟨digits, exponent⟩ := le_mul_of_one_le_left (by positivity) hone

/-- The leading digit bounds a decimal. -/
theorem value_lt (d : Decimal) : d.value < (10 : ℚ) ^ (d.leadingPlace + 1) := by
  have hdigits : (d.digits : ℚ) < (10 : ℚ) ^ (digitCount d.digits : Int) := by
    rw [zpow_natCast]
    exact_mod_cast lt_pow_digitCount d.digits
  have hplace : d.leadingPlace + 1 = digitCount d.digits + d.exponent := by
    unfold leadingPlace
    omega
  rw [hplace, zpow_add₀ (by norm_num)]
  exact mul_lt_mul_of_pos_right hdigits (by positivity)

/-- A decimal with a digit at a place far before the point is out of range, -/
theorem le_value_mul (hdigits : digits ≠ 0) {k units limit : Nat} (hexponent : (k : Int) ≤ exponent)
    (hk : limit ≤ 10 ^ k * units) : (limit : ℚ) ≤ value ⟨digits, exponent⟩ * units := by
  have hkQ : (limit : ℚ) ≤ (10 : ℚ) ^ k * units := by exact_mod_cast hk
  exact le_trans hkQ (mul_le_mul_of_nonneg_right (value_ge hdigits k hexponent) (Nat.cast_nonneg _))

/-- and one whose digits stand far behind it is less than half a unit. -/
theorem value_mul_lt_half {d : Decimal} {k units : Nat} (hplace : d.leadingPlace < -k)
    (hk : 2 * units < 10 ^ k) : d.value * units < 1 / 2 := by
  have hkQ : (2 : ℚ) * units < (10 : ℚ) ^ k := by exact_mod_cast hk
  have hpow : (10 : ℚ) ^ (d.leadingPlace + 1) ≤ ((10 : ℚ) ^ k)⁻¹ := by
    rw [← zpow_natCast, ← zpow_neg]
    exact zpow_le_zpow_right₀ (by norm_num) (by omega)
  calc d.value * units ≤ ((10 : ℚ) ^ k)⁻¹ * units :=
        mul_le_mul_of_nonneg_right (le_trans (value_lt d).le hpow) (Nat.cast_nonneg _)
    _ < 1 / 2 := by
      rw [inv_mul_eq_div, div_lt_div_iff₀ (by positivity) (by norm_num)]
      linarith

/-- The places at which reading a decimal stops to look closer are far enough for both. -/
theorem exists_far : ∃ k : Nat, (k : Int) = 400 ∧ unitsLimit ≤ 10 ^ k * unitsPerOne ∧
    2 * unitsPerOne < 10 ^ k :=
  ⟨400, rfl, by decide +kernel, by decide +kernel⟩

/-- A decimal is read as the nearest double. -/
theorem nearestTarget_toMagnitude? (d : Decimal) :
    NearestTarget (d.value * unitsPerOne) (targetOf d.toMagnitude?) := by
  obtain ⟨digits, exponent⟩ := d
  obtain ⟨k, hk, hlimit, hhalf⟩ := exists_far
  rw [toMagnitude?]
  split
  · rename_i hdigits
    obtain rfl : digits = 0 := hdigits
    rw [value, Nat.cast_zero, zero_mul, zero_mul]
    exact nearestTarget_zero (le_refl 0) (by norm_num)
  rename_i hdigits
  split
  · rename_i hexponent
    exact nearestTarget_unitsLimit (le_value_mul hdigits (hk ▸ Int.le_of_lt hexponent) hlimit)
  split
  · rename_i hplace
    exact nearestTarget_zero (mul_nonneg (value_nonneg _) (Nat.cast_nonneg _))
      (value_mul_lt_half (by rwa [hk]) hhalf)
  · exact nearestTarget_roundExactly digits exponent

end Decimal

namespace Double

/-- The double nearest to a number `q`, with a sign, is `x`: of two equally near the one with the
even significand, and an infinity if the nearest target lies beyond the range. -/
inductive Rounds (negative : Bool) (q : ℚ) : Double → Prop
  | finite (m : Magnitude) (h : NearestTarget (q * unitsPerOne) m.units) :
    Rounds negative q (.finite ⟨negative, m⟩)
  | overflow (h : NearestTarget (q * unitsPerOne) unitsLimit) :
    Rounds negative q (.infinity negative)

variable {negative : Bool} {q : ℚ} {x y : Double}

/-- Only one double is the nearest. -/
theorem Rounds.unique (hx : Rounds negative q x) (hy : Rounds negative q y) : x = y := by
  cases hx with
  | finite m hm =>
    cases hy with
    | finite n hn => rw [Magnitude.eq_of_units (hm.unique hn)]
    | overflow hn =>
      exact absurd (hm.unique hn) (Nat.ne_of_lt m.representable.lt_unitsLimit)
  | overflow hm =>
    cases hy with
    | finite n hn =>
      exact absurd (hn.unique hm) (Nat.ne_of_lt n.representable.lt_unitsLimit)
    | overflow _ => rfl

theorem rounds_ofMagnitude? {result : Option Magnitude}
    (h : NearestTarget (q * unitsPerOne) (targetOf result)) :
    Rounds negative q (ofMagnitude? negative result) := by
  cases result with
  | none => exact .overflow h
  | some m => exact .finite m h

end Double

/-- The exact value of a numeral with digits, without its sign. -/
def decimalValue (whole fraction : List Char) (exponent : Int) : ℚ :=
  Decimal.value ⟨digitsValue (whole ++ fraction), exponent - fraction.length⟩

/-- A numeral with digits stands for the double nearest to its value. -/
theorem Numeral.rounds_toDouble (negative : Bool) (whole fraction : List Char) (exponent : Int) :
    Double.Rounds negative (decimalValue whole fraction exponent)
      (decimal negative whole fraction exponent).toDouble :=
  Double.rounds_ofMagnitude? (Decimal.nearestTarget_toMagnitude? _)

end RecordQuery
