/-
RecordQuery.Proofs.Double.Shortest — how large the shortest digits of a double are.

The shortest decimal of a double reads back to it, so it lies on the same side
of the middle between two doubles. For the two largest doubles this middle is
`rangeLimit`, up to one: the decimals of all doubles but the largest stay below.

Main statements:
* `Decimal.below_of_toMagnitude?` — what is read as a smaller double than the largest;
* `Magnitude.shortest_below`, `Magnitude.le_exponent_shortest` — the size of the shortest decimal
  and the place of its last digit.
-/
import RecordQuery.Double.Decimal
import RecordQuery.Proofs.Double.Rounding

namespace RecordQuery

/-! ## Below the largest double -/

/-- One more than the middle of the two largest doubles. -/
@[irreducible] def rangeLimit : Nat := (2 ^ 54 - 3) * 2 ^ 970 + 1

theorem rangeLimit_pos : 0 < rangeLimit := by
  unfold rangeLimit
  exact Nat.add_one_pos _

/-- The decimal is smaller than a whole number. -/
def Decimal.Below (d : Decimal) (limit : Nat) : Prop :=
  d.digits * 10 ^ d.exponent.toNat < limit * 10 ^ (-d.exponent).toNat

/-- The largest double. -/
def Magnitude.largest : Magnitude :=
  ⟨(2 ^ 53 - 1) * 2 ^ maxScale, 2 ^ 53 - 1, maxScale, by decide, Nat.le_refl _, rfl⟩

/-- The limit lies above the double next to the largest one and is rounded to the largest. -/
theorem Magnitude.rangeLimit_spec :
    largest.units = (2 ^ 53 - 1) * 2 ^ maxScale ∧
      (2 ^ 53 - 2) * 2 ^ maxScale < rangeLimit * unitsPerOne ∧
      roundedUnits (rangeLimit * unitsPerOne) 1 = largest.units := by
  decide +kernel

namespace Decimal

variable {digits limit : Nat} {exponent : Int} {d : Decimal}

theorem below_ofNat (k : Nat) : Below ⟨digits, .ofNat k⟩ limit ↔ digits * 10 ^ k < limit := by
  have hneg : (-Int.ofNat k).toNat = 0 := by
    rw [Int.ofNat_eq_natCast]
    omega
  rw [Below, hneg, Nat.pow_zero, Nat.mul_one]
  rfl

theorem below_negSucc (k : Nat) :
    Below ⟨digits, .negSucc k⟩ limit ↔ digits < limit * 10 ^ (k + 1) := by
  rw [Below, Int.neg_negSucc, Int.toNat_natCast, Int.toNat_negSucc, Nat.pow_zero, Nat.mul_one]

theorem lt_pow_digitCount (n : Nat) : n < 10 ^ digitCount n :=
  (Nat.length_toDigits_le_iff (by decide) Nat.length_toDigits_pos).1 (Nat.le_refl _)

/-- What is read as a smaller double than the largest one lies below the limit. -/
theorem below_of_toMagnitude? {x : Magnitude} (h : d.toMagnitude? = some x)
    (hx : x.units < Magnitude.largest.units) : d.Below rangeLimit := by
  obtain ⟨digits, exponent⟩ := d
  rw [toMagnitude?] at h
  by_cases hzero : digits = 0
  · rw [Below, hzero, Nat.zero_mul]
    exact Nat.mul_pos rangeLimit_pos (Nat.pow_pos (by decide))
  rw [if_neg hzero] at h
  split at h
  · cases h
  split at h
  · -- Decimals far below one are smaller than one by their leading place.
    rename_i hplace
    simp only [leadingPlace] at hplace
    have hneg : exponent.toNat = 0 := by omega
    have hcount : digitCount digits ≤ (-exponent).toNat := by omega
    rw [Below, hneg, Nat.pow_zero, Nat.mul_one]
    calc digits < 10 ^ digitCount digits := lt_pow_digitCount digits
      _ ≤ 10 ^ (-exponent).toNat := Nat.pow_le_pow_right (by decide) hcount
      _ ≤ rangeLimit * 10 ^ (-exponent).toNat := Nat.le_mul_of_pos_left _ rangeLimit_pos
  · -- At the limit and above it the largest double is the nearest.
    by_contra hnot
    have hround : Magnitude.largest.units ≤ x.units := by
      rw [← Magnitude.rangeLimit_spec.2.2]
      cases exponent with
      | ofNat k =>
        rw [below_ofNat, Nat.not_lt] at hnot
        rw [Magnitude.units_of_ofRatio? h]
        exact Magnitude.roundedUnits_mono Nat.one_pos Nat.one_pos
          (Nat.mul_le_mul_right _ (Nat.mul_le_mul_right _ hnot))
      | negSucc k =>
        rw [below_negSucc, Nat.not_lt] at hnot
        rw [Magnitude.units_of_ofRatio? h]
        refine Magnitude.roundedUnits_mono Nat.one_pos (Nat.pow_pos (by decide)) ?_
        calc rangeLimit * unitsPerOne * 10 ^ (k + 1)
            = rangeLimit * 10 ^ (k + 1) * unitsPerOne := by ring
          _ ≤ digits * unitsPerOne := Nat.mul_le_mul_right _ hnot
          _ = digits * unitsPerOne * 1 := (Nat.mul_one _).symm
    exact absurd hx (Nat.not_lt.2 hround)

/-- One zero less at the end is the same number. -/
theorem Below.dropZero (hzero : digits % 10 = 0) (h : Below ⟨digits, exponent⟩ limit) :
    Below ⟨digits / 10, exponent + 1⟩ limit := by
  have hdigits : digits / 10 * 10 = digits := by omega
  simp only [Below] at h ⊢
  rcases Int.lt_or_le exponent 0 with hneg | hpos
  · have hplaces : (-exponent).toNat = (-(exponent + 1)).toNat + 1 := by omega
    have hbefore : exponent.toNat = 0 := by omega
    have hafter : (exponent + 1).toNat = 0 := by omega
    rw [hbefore, hplaces, Nat.pow_zero, Nat.mul_one, Nat.pow_succ, ← Nat.mul_assoc] at h
    rw [hafter, Nat.pow_zero, Nat.mul_one]
    omega
  · have hplaces : (exponent + 1).toNat = exponent.toNat + 1 := by omega
    have hbefore : (-exponent).toNat = 0 := by omega
    have hafter : (-(exponent + 1)).toNat = 0 := by omega
    rw [hbefore] at h
    rw [hafter, hplaces, Nat.pow_succ, Nat.mul_comm (10 ^ exponent.toNat), ← Nat.mul_assoc, hdigits]
    exact h

theorem digits_dropZeros_pos (budget : Nat) (h : 0 < d.digits) :
    0 < (dropZeros budget d).digits := by
  induction budget generalizing d with
  | zero => exact h
  | succ budget ih =>
    rw [dropZeros]
    split
    · refine ih ?_
      show 0 < d.digits / 10
      omega
    · exact h

theorem exponent_trim_of_digits_eq_zero (d : Decimal) (h : d.trim.digits = 0) :
    d.trim.exponent = 0 := by
  rw [trim] at h ⊢
  split at h
  · rw [if_pos (by assumption)]
  · rename_i hdigits
    have := digits_dropZeros_pos (digitCount d.digits) (Nat.pos_of_ne_zero hdigits)
    omega

/-- What zero has, and what is kept when a zero is dropped at the end, the trimmed number has. -/
theorem trim_induction {P : Decimal → Prop} (hzero : P ⟨0, 0⟩)
    (hstep : ∀ digits exponent, digits % 10 = 0 → P ⟨digits, exponent⟩ →
      P ⟨digits / 10, exponent + 1⟩) (h : P d) : P d.trim := by
  have hdrop : ∀ (budget : Nat) (d : Decimal), P d → P (dropZeros budget d) := by
    intro budget
    induction budget with
    | zero => exact fun d h => h
    | succ budget ih =>
      intro d h
      rw [dropZeros]
      split
      · rename_i hmod
        exact ih _ (hstep _ _ hmod h)
      · exact h
  rw [trim]
  split
  · exact hzero
  · exact hdrop _ _ h

end Decimal

namespace Magnitude

/-- A double has the scale of the largest one or is below half of it. -/
theorem units_eq_or_le (x : Magnitude) :
    (∃ m < 2 ^ 53, x.units = m * 2 ^ maxScale) ∨ x.units ≤ 2 ^ 53 * 2 ^ (maxScale - 1) := by
  obtain ⟨units, m, k, hm, hk, rfl⟩ := x
  rcases Nat.lt_or_eq_of_le hk with hlt | rfl
  · exact .inr (Nat.mul_le_mul (Nat.le_of_lt hm)
      (Nat.pow_le_pow_right (by decide) (Nat.le_sub_one_of_lt hlt)))
  · exact .inl ⟨m, hm, rfl⟩

theorem largest_units : largest.units = (2 ^ 53 - 1) * 2 ^ maxScale := rangeLimit_spec.1

/-- What has a smaller scale is at most half as large. -/
theorem half_le {scale : Nat} (h : 0 < scale) :
    2 ^ 53 * 2 ^ (scale - 1) ≤ (2 ^ 53 - 2) * 2 ^ scale := by
  have hscale : 2 ^ scale = 2 * 2 ^ (scale - 1) := by
    rw [← Nat.pow_succ', Nat.succ_eq_add_one, Nat.sub_one_add_one h.ne']
  rw [hscale, ← Nat.mul_assoc]
  exact Nat.mul_le_mul_right _ (by decide)

theorem maxScale_pos : 0 < maxScale := by decide

theorem eq_of_units {x y : Magnitude} (h : x.units = y.units) : x = y := by
  cases x
  cases y
  cases h
  rfl

/-- No double is larger. -/
theorem eq_largest {x : Magnitude} (hx : largest.units ≤ x.units) : x = largest := by
  have hnext : (2 ^ 53 - 2) * 2 ^ maxScale < largest.units := by
    rw [largest_units]
    exact Nat.mul_lt_mul_of_pos_right (by decide) (Nat.two_pow_pos _)
  rcases x.units_eq_or_le with ⟨m, hm, heq⟩ | hle
  · refine eq_of_units (Nat.le_antisymm ?_ hx)
    rw [heq, largest_units]
    exact Nat.mul_le_mul_right _ (Nat.le_sub_one_of_lt hm)
  · exact absurd (Nat.le_trans hx (Nat.le_trans hle (half_le maxScale_pos))) (Nat.not_le.2 hnext)

/-- The double next to the largest one is far enough below. -/
theorem units_lt_rangeLimit {x : Magnitude} (hx : x.units < largest.units) :
    x.units < rangeLimit * unitsPerOne := by
  have hnext : (2 ^ 53 - 2) * 2 ^ maxScale < rangeLimit * unitsPerOne := rangeLimit_spec.2.1
  rcases x.units_eq_or_le with ⟨m, hm, heq⟩ | hle
  · rw [heq, largest_units] at hx
    have hm' : m < 2 ^ 53 - 1 := Nat.lt_of_mul_lt_mul_right hx
    refine Nat.lt_of_le_of_lt ?_ hnext
    rw [heq]
    exact Nat.mul_le_mul_right _ (by omega)
  · exact Nat.lt_of_le_of_lt (Nat.le_trans hle (half_le maxScale_pos)) hnext

/-- A factor of five for each halving. -/
theorem unitsPerOne_mul_five_pow : unitsPerOne * 5 ^ 1074 = 10 ^ 1074 := by
  unfold unitsPerOne
  -- for any exponent, so that no power is evaluated
  generalize 1074 = k
  exact (Nat.mul_pow 2 5 k).symm

theorem exactDecimal_below {x : Magnitude} (hx : x.units < largest.units) :
    x.exactDecimal.Below rangeLimit := by
  have hlow : (-1074 : Int).toNat = 0 := rfl
  have hhigh : (-(-1074) : Int).toNat = 1074 := rfl
  rw [exactDecimal, Decimal.Below, hlow, hhigh, Nat.pow_zero, Nat.mul_one,
    ← unitsPerOne_mul_five_pow, ← Nat.mul_assoc]
  exact Nat.mul_lt_mul_of_pos_right (units_lt_rangeLimit hx) (@Nat.pow_pos 5 1074 (by decide))

theorem Tie.choose_eq (tie : Tie) (low : Nat) : tie.choose low = low ∨ tie.choose low = low + 1 := by
  cases tie with
  | toEven =>
    simp only [Tie.choose]
    omega
  | up => exact .inr rfl

/-- What is found on a grid reads back. -/
theorem onGrid_reads {x : Magnitude} {tie : Tie} {exponent : Int} {d : Decimal}
    (h : x.onGrid tie exponent = some d) : d.toMagnitude? = some x ∧ d.exponent = exponent := by
  simp only [onGrid, isReadFrom, beq_iff_eq] at h
  split at h
  · rename_i hlow
    split at h
    · rename_i hhigh
      obtain rfl := Option.some.inj h
      refine ⟨?_, rfl⟩
      split
      · exact hlow
      · split
        · exact hhigh
        · rcases Tie.choose_eq tie _ with heq | heq <;> rw [heq]
          · exact hlow
          · exact hhigh
    · obtain rfl := Option.some.inj h
      exact ⟨hlow, rfl⟩
  · split at h
    · rename_i hhigh
      obtain rfl := Option.some.inj h
      exact ⟨hhigh, rfl⟩
    · cases h

/-- The decimal that the search ends with reads back or is exact, and its last digit stands at most
1074 places behind the point; then zeros are dropped. -/
theorem shortest_induction {P : Decimal → Prop} {x : Magnitude} (tie : Tie)
    (hreads : ∀ d, d.toMagnitude? = some x → -1074 ≤ d.exponent → P d) (hexact : P x.exactDecimal)
    (hzero : P ⟨0, 0⟩)
    (hstep : ∀ digits exponent, digits % 10 = 0 → P ⟨digits, exponent⟩ →
      P ⟨digits / 10, exponent + 1⟩) : P (x.shortest tie) := by
  refine Decimal.trim_induction hzero hstep ?_
  generalize hfound : List.findSome? (fun (more : Nat) =>
    x.onGrid tie (x.leadingPlace - (more : Int))) (List.range 17) = found
  cases found with
  | none =>
    rw [Option.getD_none]
    exact hexact
  | some d =>
    rw [Option.getD_some]
    obtain ⟨more, hmore, hd⟩ := List.exists_of_findSome?_eq_some hfound
    obtain ⟨hback, hexponent⟩ := onGrid_reads hd
    refine hreads d hback ?_
    have := List.mem_range.1 hmore
    simp only [hexponent, leadingPlace]
    omega

/-- How large the shortest digits of a double can be. -/
theorem shortest_below {x : Magnitude} (tie : Tie) (hx : x.units < largest.units) :
    (x.shortest tie).Below rangeLimit := by
  refine shortest_induction (P := fun d => d.Below rangeLimit) tie ?_ (exactDecimal_below hx) ?_ ?_
  · exact fun d hd _ => Decimal.below_of_toMagnitude? hd hx
  · rw [Decimal.Below, Nat.zero_mul]
    exact Nat.mul_pos rangeLimit_pos (Nat.pow_pos (by decide))
  · exact fun digits exponent hmod h => h.dropZero hmod

theorem le_exponent_shortest (x : Magnitude) (tie : Tie) : -1074 ≤ (x.shortest tie).exponent := by
  refine shortest_induction (P := fun d => -1074 ≤ d.exponent) tie (fun d _ h => h) ?_ ?_ ?_
  · exact Int.le_refl _
  · decide
  · intro digits exponent _ h
    exact Int.le_trans h (by simp)

/-- Zero is written as zero. -/
theorem exponent_shortest_of_digits_eq_zero {x : Magnitude} {tie : Tie}
    (h : (x.shortest tie).digits = 0) : (x.shortest tie).exponent = 0 := by
  revert h
  simp only [shortest]
  generalize Option.getD _ _ = d
  exact Decimal.exponent_trim_of_digits_eq_zero d

end Magnitude

end RecordQuery
