/-
RecordQuery.Proofs.Json.Scale — where scaling stays in the range of doubles.

The reader of JSON numbers scales what it gathered by one multiplication or
division of doubles, whose operands are rounded already. A quotient never gets
out of range. A product stays in range as long as the exact product is below
`rangeLimit`: this is looked at for the largest gathered number at each power
of ten where it is in question, and holds of smaller numbers because rounding
keeps the order.

Main statements:
* `scale_isSome_of_le` — with a product smaller ones are in range;
* `scale_isSome` — products and quotients that are in range.
-/
import RecordQuery.Json.Reader
import RecordQuery.Proofs.Double.Shortest

namespace RecordQuery.Json

open Magnitude

variable {m n j k : Nat}

theorem scale_ofNat (hk : k ≤ 308) :
    scale m (.ofNat k) = (ofNat? m).bind fun x => (ofNat? (10 ^ k)).bind x.mul? := by
  rw [scale]
  simp only [hk, if_true, Option.bind_eq_bind]

theorem scale_negSucc (m k : Nat) :
    scale m (.negSucc k) = (ofNat? m).bind fun x =>
      if k + 1 ≤ 308 then divideByPower x (k + 1)
      else if k + 1 ≤ 616 then (divideByPower x 308).bind fun y => divideByPower y (k + 1 - 308)
      else some .zero := rfl

theorem divideByPower_eq_bind (x : Magnitude) (power : Nat) :
    divideByPower x power = (ofNat? (10 ^ power)).bind x.div? := rfl

theorem ofNat?_isSome_of_le (h : m ≤ n) (hn : (ofNat? n).isSome) : (ofNat? m).isSome := by
  have hunits : m * unitsPerOne ≤ n * unitsPerOne := Nat.mul_le_mul_right _ h
  rw [ofNat?] at hn ⊢
  exact ofRatio?_isSome_of_le Nat.one_pos Nat.one_pos (Nat.mul_le_mul_right _ hunits) hn

theorem units_le_of_ofNat? {x y : Magnitude} (h : m ≤ n) (hx : ofNat? m = some x)
    (hy : ofNat? n = some y) : x.units ≤ y.units := by
  have hunits : m * unitsPerOne ≤ n * unitsPerOne := Nat.mul_le_mul_right _ h
  rw [ofNat?] at hx hy
  exact units_le_of_ofRatio? Nat.one_pos Nat.one_pos (Nat.mul_le_mul_right _ hunits) hx hy

/-- Whatever is gathered is in range at the power 288; one is not at the power 309. -/
theorem rangeLimit_bounds : gatherLimit * 10 ^ 288 < rangeLimit ∧ rangeLimit ≤ 10 ^ 309 := by
  decide +kernel

theorem gatherLimit_lt : gatherLimit < rangeLimit :=
  Nat.lt_of_le_of_lt (Nat.le_mul_of_pos_right _ (Nat.pow_pos (by decide))) rangeLimit_bounds.1

/-- The first power of two that is not gathered, in units. -/
def gatherUnits : Nat := 2 ^ 64 * unitsPerOne

/-- The doubles at the ends: of one, of the first power of two that is not gathered, and of the
largest power of ten that is computed with. -/
theorem ofNat?_ends : (ofNat? 1).map units = some unitsPerOne ∧
    (ofNat? (2 ^ 64)).map units = some gatherUnits ∧ (ofNat? (10 ^ 308)).isSome := by
  decide +kernel

/-- The powers of ten that are multiplied and divided with have doubles. -/
theorem exists_ofNat?_power (hj : j ≤ 308) :
    ∃ p, ofNat? (10 ^ j) = some p ∧ unitsPerOne ≤ p.units := by
  obtain ⟨hone, -, hlargest⟩ := ofNat?_ends
  have hle := Nat.pow_le_pow_right (show 10 > 0 by decide) hj
  obtain ⟨p, hp⟩ := Option.isSome_iff_exists.1 (ofNat?_isSome_of_le hle hlargest)
  obtain ⟨one, hone, hunits⟩ := Option.map_eq_some_iff.1 hone
  refine ⟨p, hp, ?_⟩
  rw [← hunits]
  exact units_le_of_ofNat? (Nat.pow_pos (by decide)) hone hp

/-- If a product is in range, so are the products of smaller numbers and powers. -/
theorem scale_isSome_of_le (hmn : m ≤ n) (hjk : j ≤ k) (hk : k ≤ 308)
    (h : (scale n (.ofNat k)).isSome) : (scale m (.ofNat j)).isSome := by
  obtain ⟨p, hp, -⟩ := exists_ofNat?_power (Nat.le_trans hjk hk)
  obtain ⟨q, hq, -⟩ := exists_ofNat?_power hk
  rw [scale_ofNat hk, hq] at h
  obtain ⟨y, hy⟩ : ∃ y, ofNat? n = some y := by
    cases hy : ofNat? n with
    | none =>
      rw [hy] at h
      cases h
    | some y => exact ⟨y, rfl⟩
  obtain ⟨x, hx⟩ := Option.isSome_iff_exists.1
    (ofNat?_isSome_of_le hmn (Option.isSome_of_mem hy))
  rw [hy, Option.bind_some, Option.bind_some, mul?] at h
  rw [scale_ofNat (Nat.le_trans hjk hk), hx, hp, Option.bind_some, Option.bind_some, mul?]
  have hunits : x.units * p.units ≤ y.units * q.units :=
    Nat.mul_le_mul (units_le_of_ofNat? hmn hx hy)
      (units_le_of_ofNat? (Nat.pow_le_pow_right (by decide) hjk) hp hq)
  exact ofRatio?_isSome_of_le unitsPerOne_pos unitsPerOne_pos (Nat.mul_le_mul_right _ hunits) h

/-- The largest numbers that are gathered and stay within the limit, for the powers at which the
limit is in reach. -/
theorem scale_isSome_limit : ∀ k < 21,
    (scale (min (rangeLimit / 10 ^ (288 + k)) gatherLimit) (.ofNat (288 + k))).isSome := by
  decide +kernel

theorem le_limit_of_mul_lt (hm : m ≤ gatherLimit) (h : m * 10 ^ j < rangeLimit) :
    m ≤ min (rangeLimit / 10 ^ j) gatherLimit := by
  refine Nat.le_min.2 ⟨?_, hm⟩
  rw [Nat.le_div_iff_mul_le (Nat.pow_pos (by decide))]
  exact Nat.le_of_lt h

theorem scale_isSome_up (hm : m ≤ gatherLimit) (hlimit : m * 10 ^ k < rangeLimit) :
    (scale m (.ofNat k)).isSome := by
  rcases Nat.lt_or_ge k 288 with hsmall | hlarge
  · have hgathered : m * 10 ^ 288 < rangeLimit :=
      Nat.lt_of_le_of_lt (Nat.mul_le_mul_right _ hm) rangeLimit_bounds.1
    have hfirst := scale_isSome_limit 0 (by decide)
    rw [Nat.add_zero] at hfirst
    exact scale_isSome_of_le (le_limit_of_mul_lt hm hgathered) (Nat.le_of_lt hsmall) (by decide)
      hfirst
  · rcases Nat.lt_or_ge 308 k with hbeyond | hk
    · rcases Nat.eq_zero_or_pos m with rfl | hpos
      · obtain ⟨x, hx⟩ := Option.isSome_iff_exists.1
          (ofNat?_isSome_of_le (Nat.zero_le _) ofNat?_ends.2.2)
        have hnot : ¬ k ≤ 308 := Nat.not_le.2 hbeyond
        rw [scale, hx]
        simp only [hnot, if_false, if_true, Option.bind_eq_bind, Option.bind_some,
          Option.isSome_some]
      · have hpower := Nat.pow_le_pow_right (show 10 > 0 by decide) (show 309 ≤ k from hbeyond)
        have hproduct : 10 ^ k ≤ m * 10 ^ k := Nat.le_mul_of_pos_left _ hpos
        exact absurd hlimit
          (Nat.not_lt.2 (Nat.le_trans rangeLimit_bounds.2 (Nat.le_trans hpower hproduct)))
    · have hlast := scale_isSome_limit (k - 288) (by omega)
      rw [Nat.add_sub_cancel' hlarge] at hlast
      exact scale_isSome_of_le (le_limit_of_mul_lt hm hlimit) (Nat.le_refl _) hk hlast

/-- The first power of two that is not gathered is a double. -/
theorem roundedUnits_gatherUnits :
    roundedUnits gatherUnits 1 = gatherUnits ∧ gatherUnits < unitsLimit := by
  obtain ⟨x, hx, hunits⟩ := Option.map_eq_some_iff.1 ofNat?_ends.2.1
  have hrounded : roundedUnits gatherUnits 1 = gatherUnits := (units_of_ofRatio? hx).symm.trans hunits
  refine ⟨hrounded, ?_⟩
  rw [← hrounded]
  exact (ofRatio?_isSome_iff _ _).1 (Option.isSome_of_mem hx)

/-- A quotient by a power of ten stays below that. -/
theorem exists_divideByPower {x : Magnitude} (hx : x.units ≤ gatherUnits) (hj : j ≤ 308) :
    ∃ y, divideByPower x j = some y ∧ y.units ≤ gatherUnits := by
  obtain ⟨p, hp, hunits⟩ := exists_ofNat?_power hj
  have hpos : 0 < p.units := Nat.lt_of_lt_of_le unitsPerOne_pos hunits
  have hle : roundedUnits (x.units * unitsPerOne) p.units ≤ gatherUnits := by
    rw [← roundedUnits_gatherUnits.1]
    refine roundedUnits_mono hpos Nat.one_pos ?_
    rw [Nat.mul_one]
    exact Nat.mul_le_mul hx hunits
  obtain ⟨y, hy⟩ := Option.isSome_iff_exists.1
    ((ofRatio?_isSome_iff _ _).2 (Nat.lt_of_le_of_lt hle roundedUnits_gatherUnits.2))
  refine ⟨y, ?_, ?_⟩
  · rw [divideByPower_eq_bind, hp, Option.bind_some, div?, hy]
  · rw [units_of_ofRatio? hy]
    exact hle

theorem exists_ofNat?_gathered (hm : m ≤ gatherLimit) :
    ∃ x, ofNat? m = some x ∧ x.units ≤ gatherUnits := by
  obtain ⟨top, htop, hunits⟩ := Option.map_eq_some_iff.1 ofNat?_ends.2.1
  have hle : m ≤ 2 ^ 64 := Nat.le_trans hm (by decide)
  obtain ⟨x, hx⟩ := Option.isSome_iff_exists.1
    (ofNat?_isSome_of_le hle (Option.isSome_of_mem htop))
  exact ⟨x, hx, hunits ▸ units_le_of_ofNat? hle hx htop⟩

theorem scale_isSome_down (hm : m ≤ gatherLimit) (k : Nat) : (scale m (.negSucc k)).isSome := by
  obtain ⟨x, hx, hunits⟩ := exists_ofNat?_gathered hm
  rw [scale_negSucc, hx, Option.bind_some]
  by_cases hone : k + 1 ≤ 308
  · obtain ⟨y, hy, -⟩ := exists_divideByPower hunits hone
    rw [if_pos hone, hy, Option.isSome_some]
  rw [if_neg hone]
  by_cases htwo : k + 1 ≤ 616
  · obtain ⟨y, hy, hyunits⟩ := exists_divideByPower hunits (Nat.le_refl 308)
    obtain ⟨z, hz, -⟩ := exists_divideByPower hyunits (j := k + 1 - 308) (by omega)
    rw [if_pos htwo, hy, Option.bind_some, hz, Option.isSome_some]
  · rw [if_neg htwo, Option.isSome_some]

/-- A gathered number is scaled within the range of doubles if the exact product is small enough. -/
theorem scale_isSome {exponent : Int} (hm : m ≤ gatherLimit)
    (hlimit : ∀ k : Nat, exponent = k → m * 10 ^ k < rangeLimit) : (scale m exponent).isSome := by
  cases exponent with
  | ofNat k => exact scale_isSome_up hm (hlimit k rfl)
  | negSucc k => exact scale_isSome_down hm k

end RecordQuery.Json
