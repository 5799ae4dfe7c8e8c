/-
RecordQuery.Proofs.Double.Rounding — rounding keeps the order.

A larger number is never rounded to a smaller double. Numbers with equally many
spare bits are rounded on one grid, where the nearest point grows with the
number; a number with more spare bits is rounded to at least the power of two
at which its range begins, and no number below that range gets past it.

Main statements:
* `nearestEven_mono` — the nearest whole number grows with the quotient;
* `Magnitude.roundedUnits_mono` — the nearest double grows with the quotient;
* `Magnitude.ofRatio?_isSome_of_le`, `Magnitude.units_le_of_ofRatio?` — what this says of results.
-/
import RecordQuery.Double.Basic
import Mathlib.Tactic.Ring
import Mathlib.Tactic.Linarith

namespace RecordQuery

variable {num den num' den' : Nat}

theorem unitsPerOne_pos : 0 < unitsPerOne := by
  rw [unitsPerOne]
  apply Nat.pow_pos
  decide

/-! ## The nearest whole number -/

theorem div_le_div_of_cross (hden : 0 < den) (hden' : 0 < den') (h : num * den' ≤ num' * den) :
    num / den ≤ num' / den' := by
  rw [Nat.le_div_iff_mul_le hden']
  have hfloor : num / den * den ≤ num := Nat.div_mul_le_self num den
  have : num / den * den' * den ≤ num' * den := by
    calc num / den * den' * den = num / den * den * den' := by ring
      _ ≤ num * den' := Nat.mul_le_mul_right _ hfloor
      _ ≤ num' * den := h
  exact Nat.le_of_mul_le_mul_right this hden

theorem le_nearestEven (num den : Nat) : num / den ≤ nearestEven num den := by
  simp only [nearestEven]
  split
  · omega
  · split <;> omega

/-- The nearest whole number grows with the quotient. -/
theorem nearestEven_mono (hden : 0 < den) (hden' : 0 < den') (h : num * den' ≤ num' * den) :
    nearestEven num den ≤ nearestEven num' den' := by
  have hdiv := div_le_div_of_cross hden hden' h
  rcases Nat.lt_or_eq_of_le hdiv with hlt | heq
  · exact Nat.le_trans (nearestEven_le num den) (Nat.le_trans hlt (le_nearestEven num' den'))
  · -- The whole parts are equal, so the remainders are in the order of the quotients.
    have hnum := Nat.div_add_mod num den
    have hnum' := Nat.div_add_mod num' den'
    have hrest : num % den * den' ≤ num' % den' * den := by
      rw [← hnum, ← hnum', heq] at h
      linarith
    simp only [nearestEven, heq]
    split
    · split
      · omega
      · split <;> omega
    · rename_i hge
      split
      · rename_i hgt
        have hgt' : den' < 2 * (num' % den') := by
          by_contra hle
          have hpos : den * den' < 2 * (num % den) * den' := Nat.mul_lt_mul_of_pos_right hgt hden'
          have hmax : 2 * (num' % den') * den ≤ den' * den := Nat.mul_le_mul_right _ (by omega)
          linarith
        rw [if_neg (by omega), if_pos hgt']
      · rename_i hle
        have htie : den' ≤ 2 * (num' % den') := by
          by_contra hlt
          have hmax : 2 * (num' % den') * den < den' * den :=
            Nat.mul_lt_mul_of_pos_right (by omega) hden
          have hmin : den * den' ≤ 2 * (num % den) * den' := Nat.mul_le_mul_right _ (by omega)
          linarith
        rw [if_neg (by omega)]
        split <;> omega

/-! ## The nearest double -/

theorem two_pow_le_div_spareBits {n : Nat} (h : 0 < spareBits n) :
    2 ^ 52 ≤ n / 2 ^ spareBits n := by
  have hlog : n.log2 = 52 + spareBits n := by
    simp only [spareBits] at h ⊢
    omega
  have hn : n ≠ 0 := by
    rintro rfl
    simp [spareBits] at h
  rw [Nat.le_div_iff_mul_le (Nat.two_pow_pos _), ← Nat.pow_add, ← hlog]
  exact Nat.log2_self_le hn

theorem spareBits_mono {m n : Nat} (h : m ≤ n) : spareBits m ≤ spareBits n := by
  rcases Nat.eq_zero_or_pos m with rfl | hm
  · simp [spareBits]
  · have : m.log2 ≤ n.log2 := by
      rw [Nat.le_log2 (by omega)]
      exact Nat.le_trans (Nat.log2_self_le (by omega)) h
    simp only [spareBits]
    omega

namespace Magnitude

theorem nearestEven_spareBits_le (num den : Nat) :
    nearestEven num (den * 2 ^ spareBits (num / den)) ≤ 2 ^ 53 := by
  refine Nat.le_trans (nearestEven_le _ _) ?_
  rw [← Nat.div_div_eq_div_mul]
  exact div_two_pow_spareBits_lt _

/-- The nearest double grows with the quotient. -/
theorem roundedUnits_mono (hden : 0 < den) (hden' : 0 < den') (h : num * den' ≤ num' * den) :
    roundedUnits num den ≤ roundedUnits num' den' := by
  have hspare := spareBits_mono (div_le_div_of_cross hden hden' h)
  simp only [roundedUnits]
  rcases Nat.lt_or_eq_of_le hspare with hlt | heq
  · -- The power of two between the two ranges.
    have hlow : nearestEven num (den * 2 ^ spareBits (num / den)) * 2 ^ spareBits (num / den) ≤
        2 ^ (53 + spareBits (num / den)) := by
      rw [Nat.pow_add]
      exact Nat.mul_le_mul_right _ (nearestEven_spareBits_le num den)
    have hhigh : 2 ^ (52 + spareBits (num' / den')) ≤
        nearestEven num' (den' * 2 ^ spareBits (num' / den')) * 2 ^ spareBits (num' / den') := by
      rw [Nat.pow_add]
      refine Nat.mul_le_mul_right _ (Nat.le_trans ?_ (le_nearestEven _ _))
      rw [← Nat.div_div_eq_div_mul]
      exact two_pow_le_div_spareBits (by omega)
    exact Nat.le_trans hlow (Nat.le_trans (Nat.pow_le_pow_right (by decide) (by omega)) hhigh)
  · rw [heq]
    refine Nat.mul_le_mul_right _ (nearestEven_mono ?_ ?_ ?_)
    · exact Nat.mul_pos hden (Nat.two_pow_pos _)
    · exact Nat.mul_pos hden' (Nat.two_pow_pos _)
    · calc num * (den' * 2 ^ spareBits (num' / den'))
          = num * den' * 2 ^ spareBits (num' / den') := by ring
        _ ≤ num' * den * 2 ^ spareBits (num' / den') := Nat.mul_le_mul_right _ h
        _ = num' * (den * 2 ^ spareBits (num' / den')) := by ring

theorem units_of_ofRatio? {x : Magnitude} (h : ofRatio? num den = some x) :
    x.units = roundedUnits num den := by
  simp only [ofRatio?] at h
  split at h
  · exact (congrArg units (Option.some.inj h)).symm
  · simp at h

theorem ofRatio?_isSome_iff (num den : Nat) :
    (ofRatio? num den).isSome ↔ roundedUnits num den < unitsLimit := by
  simp only [ofRatio?]
  split <;> simp_all

/-- Where a quotient has a double, a smaller one has a double too, -/
theorem ofRatio?_isSome_of_le (hden : 0 < den) (hden' : 0 < den') (h : num * den' ≤ num' * den)
    (hsome : (ofRatio? num' den').isSome) : (ofRatio? num den).isSome := by
  rw [ofRatio?_isSome_iff] at hsome ⊢
  exact Nat.lt_of_le_of_lt (roundedUnits_mono hden hden' h) hsome

/-- which is no larger. -/
theorem units_le_of_ofRatio? {x y : Magnitude} (hden : 0 < den) (hden' : 0 < den')
    (h : num * den' ≤ num' * den) (hx : ofRatio? num den = some x)
    (hy : ofRatio? num' den' = some y) : x.units ≤ y.units := by
  rw [units_of_ofRatio? hx, units_of_ofRatio? hy]
  exact roundedUnits_mono hden hden' h

end Magnitude

end RecordQuery
