/-
RecordQuery.Proofs.Double.Fewest — the fewest digits that name a double.

`Magnitude.IsShortest` says which decimal a double is written as, without the
search that finds it: the double is the nearest one to it, no decimal with fewer
digits has that property, and of those with as few digits it lies nearest to the
double, above it if another lies equally near.

The search looks at one grid of decimals after the other. The numbers that are
read as one double have no gaps, so on a grid only the two neighbours of the
double need a look. No decimal that is read as the double has its leading digit
far off, so each grid stands for a count of digits; and with seventeen digits
the grid is finer than the doubles are, so the search ends there at the latest.

Main statements:
* `NearestTarget.mono` — a larger number is never rounded to a smaller double;
* `Target.gap` — how far apart doubles are;
* `Magnitude.onGrid_eq_none`, `Magnitude.isNearest_of_onGrid` — one grid;
* `Magnitude.exists_onGrid` — seventeen digits are enough;
* `Magnitude.isShortest_shortest`, `Magnitude.IsShortest.value_eq` — what the search finds.
-/
import RecordQuery.Proofs.Double.Nearest

namespace RecordQuery

/-! ## What is read as one double -/

/-- A larger number is never rounded to a smaller double. -/
theorem NearestTarget.mono {q r : ℚ} {m n : Nat} (hm : NearestTarget q m) (hn : NearestTarget r n)
    (h : q ≤ r) : m ≤ n := by
  by_contra hlt
  have hltQ : (n : ℚ) < m := by exact_mod_cast Nat.lt_of_not_le hlt
  -- Both numbers are the middle of the two targets then, which has one nearest target.
  have hq : (m + n : ℚ) / 2 ≤ q := by
    by_contra hbelow
    have hle := hm.least n hn.target
    rw [abs_of_nonpos (by linarith)] at hle
    rcases abs_cases (q - n) with ⟨heq, -⟩ | ⟨heq, -⟩ <;> rw [heq] at hle <;> linarith
  have hr : r ≤ (m + n : ℚ) / 2 := by
    by_contra habove
    have hle := hn.least m hm.target
    rw [abs_of_nonneg (by linarith)] at hle
    rcases abs_cases (r - m) with ⟨heq, -⟩ | ⟨heq, -⟩ <;> rw [heq] at hle <;> linarith
  obtain rfl : q = r := by linarith
  exact hlt (Nat.le_of_eq (hm.unique hn))

/-- What lies between two numbers that are rounded to one double is rounded to it too. -/
theorem NearestTarget.between {q r s : ℚ} {m n : Nat} (hq : NearestTarget q n)
    (hs : NearestTarget s n) (hr : NearestTarget r m) (hqr : q ≤ r) (hrs : r ≤ s) : m = n :=
  Nat.le_antisymm (hr.mono hs hrs) (hq.mono hr hqr)

theorem Magnitude.nearestTarget_units (x : Magnitude) : NearestTarget (x.units : ℚ) x.units where
  target := .inl x.representable
  least m _ := by simp
  even m _ hne hdistance := by
    rw [sub_self, abs_zero, abs_eq_zero, sub_eq_zero] at hdistance
    exact absurd (by exact_mod_cast hdistance.symm) hne

/-- The gap between two doubles is no smaller than the larger one divided by 2^53. -/
theorem Target.gap {m n : Nat} (hm : Target m) (hn : Target n) (hlt : m < n) :
    n ≤ (n - m) * 2 ^ 53 := by
  by_contra hclose
  have hlog : 53 ≤ n.log2 := (Nat.le_log2 (by omega)).2 (by omega)
  obtain ⟨k, hk⟩ := Nat.exists_eq_add_of_le hlog
  have hlow : 2 ^ (53 + k) ≤ n := hk ▸ Nat.log2_self_le (by omega)
  have hhigh : n < 2 ^ (k + 1) * 2 ^ 53 := by
    rw [← Nat.pow_add, show k + 1 + 53 = n.log2 + 1 by omega]
    exact Nat.lt_log2_self
  have hnear : n - m < 2 ^ (k + 1) := Nat.lt_of_mul_lt_mul_right (by omega : _ * 2 ^ 53 < _)
  -- Doubles in one binade lie on its grid.
  have hgrid (j : Nat) (hj : 2 ^ (52 + j) ≤ m) : 2 ^ j ≤ n - m :=
    Nat.le_of_dvd (by omega)
      (Nat.dvd_sub (hn.two_pow_dvd (Nat.le_trans hj (Nat.le_of_lt hlt))) (hm.two_pow_dvd hj))
  have hstart : 2 ^ (53 + k) = 2 ^ (52 + (k + 1)) := by
    congr 1
    omega
  have hbelow : m < 2 ^ (53 + k) := by
    by_contra hle
    have := hgrid (k + 1) (by omega)
    omega
  -- So the larger one starts its binade, and the other lies on the grid below.
  have heq : n = 2 ^ (53 + k) := by
    have hdvd : 2 ^ (k + 1) ∣ n - 2 ^ (53 + k) := by
      refine Nat.dvd_sub (hn.two_pow_dvd (by omega)) ?_
      exact Nat.pow_dvd_pow 2 (by omega)
    have := Nat.eq_zero_of_dvd_of_lt hdvd (by omega)
    omega
  have hhalf : n - m < 2 ^ k := by
    have hsplit : 2 ^ (53 + k) = 2 ^ k * 2 ^ 53 := by rw [Nat.add_comm, Nat.pow_add]
    exact Nat.lt_of_mul_lt_mul_right (by omega : _ * 2 ^ 53 < _)
  have hpow : 2 ^ (53 + k) = 2 ^ (52 + k) * 2 := by
    rw [← Nat.pow_succ]
    congr 1
    omega
  have hle : 2 ^ k ≤ 2 ^ (52 + k) := Nat.pow_le_pow_right (by decide) (by omega)
  have := hgrid k (by omega)
  omega

/-- What lies close enough to a double is rounded to it. -/
theorem Magnitude.nearestTarget_of_close {q : ℚ} (x : Magnitude)
    (h : |q - x.units| * 2 ^ 54 < x.units) : NearestTarget q x.units := by
  have hfar (m : Nat) (hm : Target m) (hne : m ≠ x.units) : |q - x.units| < |q - m| := by
    have hgap : (x.units : ℚ) ≤ |(m : ℚ) - x.units| * 2 ^ 53 := by
      have hx : Target x.units := .inl x.representable
      rcases Nat.lt_or_gt_of_ne hne with hlt | hgt
      · have hltQ : (m : ℚ) < x.units := by exact_mod_cast hlt
        have hnat := hm.gap hx hlt
        rw [abs_of_neg (by linarith), neg_sub, ← Nat.cast_sub hlt.le]
        exact_mod_cast hnat
      · have hgtQ : (x.units : ℚ) < m := by exact_mod_cast hgt
        have hnat := Nat.le_trans hgt.le (hx.gap hm hgt)
        rw [abs_of_pos (by linarith), ← Nat.cast_sub hgt.le]
        exact_mod_cast hnat
    have htriangle : |(m : ℚ) - x.units| ≤ |q - m| + |q - x.units| := by
      rw [abs_sub_comm q m]
      exact abs_sub_le _ _ _
    linarith
  refine ⟨.inl x.representable, fun m hm => ?_, fun m hm hne hdistance => ?_⟩
  · rcases eq_or_ne m x.units with rfl | hne
    · exact le_refl _
    · exact (hfar m hm hne).le
  · exact absurd hdistance (hfar m hm hne).ne'

namespace Decimal

variable {d e f : Decimal} {x : Magnitude}

/-- The double is the nearest one to the decimal. -/
def Reads (d : Decimal) (x : Magnitude) : Prop := NearestTarget (d.value * unitsPerOne) x.units

theorem reads_iff : d.Reads x ↔ d.toMagnitude? = some x := by
  have hnearest := nearestTarget_toMagnitude? d
  constructor
  · intro h
    have hunits := hnearest.unique h
    cases hread : d.toMagnitude? with
    | none =>
      rw [hread] at hunits
      exact absurd hunits.symm (Nat.ne_of_lt x.representable.lt_unitsLimit)
    | some y =>
      rw [hread] at hunits
      rw [Magnitude.eq_of_units hunits]
  · intro h
    rw [h] at hnearest
    exact hnearest

/-- A decimal between two numbers that are read as one double is read as it too. -/
theorem reads_of_between {q r : ℚ} (hq : NearestTarget q x.units) (hr : NearestTarget r x.units)
    (hlow : q ≤ d.value * unitsPerOne) (hhigh : d.value * unitsPerOne ≤ r) : d.Reads x := by
  have hnearest := nearestTarget_toMagnitude? d
  have hunits := hq.between hr hnearest hlow hhigh
  rwa [hunits] at hnearest

/-- Only zero is read as zero. -/
theorem digits_pos_of_reads (h : d.Reads x) (hx : 0 < x.units) : 0 < d.digits := by
  by_contra hzero
  have hvalue : d.value * unitsPerOne = 0 := by
    rw [value, Nat.eq_zero_of_not_pos hzero, Nat.cast_zero, zero_mul, zero_mul]
  rw [Reads, hvalue] at h
  have := (nearestTarget_zero (le_refl 0) (by norm_num)).unique h
  omega

end Decimal

namespace Magnitude

open Decimal (reads_iff reads_of_between)

/-- The decimal is the one by whose digits the double is written: the double is the nearest one to it,
fewer digits do not have this property, and of those that have as few digits it lies nearest to the
double, above it if another one lies equally near. -/
structure IsShortest (x : Magnitude) (d : Decimal) : Prop where
  reads : d.Reads x
  fewest : ∀ other : Decimal, other.Reads x → digitCount d.digits ≤ digitCount other.digits
  nearest : ∀ other : Decimal, other.Reads x → digitCount other.digits = digitCount d.digits →
    |d.value * unitsPerOne - x.units| ≤ |other.value * unitsPerOne - x.units|
  above : ∀ other : Decimal, other.Reads x → digitCount other.digits = digitCount d.digits →
    |other.value * unitsPerOne - x.units| = |d.value * unitsPerOne - x.units| →
    other.value ≤ d.value

variable {x : Magnitude} {d e : Decimal} {tie : Tie} {exponent : Int}

/-- A double is written as one number. -/
theorem IsShortest.value_eq (hd : x.IsShortest d) (he : x.IsShortest e) : d.value = e.value := by
  have hcount : digitCount d.digits = digitCount e.digits :=
    Nat.le_antisymm (hd.fewest e he.reads) (he.fewest d hd.reads)
  have hdistance : |d.value * unitsPerOne - x.units| = |e.value * unitsPerOne - x.units| :=
    le_antisymm (hd.nearest e he.reads hcount.symm) (he.nearest d hd.reads hcount)
  exact le_antisymm (he.above d hd.reads hcount hdistance)
    (hd.above e he.reads hcount.symm hdistance.symm)

/-! ## One grid -/

/-- The units between two neighbours on a grid of decimals. -/
def gridStep (exponent : Int) : ℚ := (10 : ℚ) ^ exponent * unitsPerOne

theorem gridStep_pos (exponent : Int) : 0 < gridStep exponent :=
  mul_pos (zpow_pos (by norm_num) _) (Nat.cast_pos.2 unitsPerOne_pos)

theorem value_mul_unitsPerOne (digits : Nat) (exponent : Int) :
    Decimal.value ⟨digits, exponent⟩ * unitsPerOne = digits * gridStep exponent := by
  rw [Decimal.value, gridStep, mul_assoc]

/-- The quotient whose whole part is the lower neighbour. -/
theorem overPower_spec (x : Magnitude) (exponent : Int) :
    0 < (x.overPower exponent).2 ∧
      ((x.overPower exponent).1 : ℚ) * gridStep exponent = x.units * (x.overPower exponent).2 := by
  cases exponent with
  | ofNat k =>
    have hpower : 0 < 10 ^ k := Nat.pow_pos (by decide)
    simp only [overPower, gridStep, Int.ofNat_eq_natCast, zpow_natCast]
    refine ⟨Nat.mul_pos unitsPerOne_pos hpower, ?_⟩
    push_cast
    ring
  | negSucc k =>
    simp only [overPower, gridStep, zpow_negSucc]
    refine ⟨unitsPerOne_pos, ?_⟩
    push_cast
    generalize (unitsPerOne : ℚ) = unit
    field_simp

/-- The digits of the lower neighbour on a grid. -/
def lowDigits (x : Magnitude) (exponent : Int) : Nat :=
  (x.overPower exponent).1 / (x.overPower exponent).2

/-- How far the double lies above its lower neighbour, in steps of the grid. -/
theorem units_eq (x : Magnitude) (exponent : Int) :
    (x.units : ℚ) = (x.lowDigits exponent + ((x.overPower exponent).1 %
      (x.overPower exponent).2 : Nat) / ((x.overPower exponent).2 : ℚ)) * gridStep exponent := by
  obtain ⟨hden, hratio⟩ := x.overPower_spec exponent
  have hdenQ : ((x.overPower exponent).2 : ℚ) ≠ 0 := by exact_mod_cast hden.ne'
  have hdivision : ((x.overPower exponent).1 : ℚ) =
      (x.overPower exponent).2 * x.lowDigits exponent +
        ((x.overPower exponent).1 % (x.overPower exponent).2 : Nat) := by
    exact_mod_cast (Nat.div_add_mod _ _).symm
  rw [hdivision] at hratio
  field_simp
  linarith

theorem lowDigits_mul_le (x : Magnitude) (exponent : Int) :
    (x.lowDigits exponent : ℚ) * gridStep exponent ≤ x.units := by
  rw [x.units_eq exponent]
  refine mul_le_mul_of_nonneg_right ?_ (gridStep_pos exponent).le
  have : (0 : ℚ) ≤ ((x.overPower exponent).1 % (x.overPower exponent).2 : Nat) /
      ((x.overPower exponent).2 : ℚ) := by positivity
  linarith

theorem lt_lowDigits_succ_mul (x : Magnitude) (exponent : Int) :
    (x.units : ℚ) < (x.lowDigits exponent + 1 : Nat) * gridStep exponent := by
  obtain ⟨hden, -⟩ := x.overPower_spec exponent
  have hdenQ : (0 : ℚ) < (x.overPower exponent).2 := by exact_mod_cast hden
  have hrest : (((x.overPower exponent).1 % (x.overPower exponent).2 : Nat) : ℚ) <
      (x.overPower exponent).2 := by exact_mod_cast Nat.mod_lt _ hden
  rw [x.units_eq exponent]
  refine mul_lt_mul_of_pos_right ?_ (gridStep_pos exponent)
  have := (div_lt_one hdenQ).2 hrest
  push_cast
  linarith

/-- Where the lower neighbour is the nearer one. -/
theorem rest_lt_iff (x : Magnitude) (exponent : Int) :
    2 * ((x.overPower exponent).1 % (x.overPower exponent).2) < (x.overPower exponent).2 ↔
      x.units - x.lowDigits exponent * gridStep exponent <
        (x.lowDigits exponent + 1 : Nat) * gridStep exponent - x.units := by
  obtain ⟨hden, -⟩ := x.overPower_spec exponent
  have hdenQ : (0 : ℚ) < (x.overPower exponent).2 := by exact_mod_cast hden
  have hunits := x.units_eq exponent
  have hstep := gridStep_pos exponent
  generalize (x.overPower exponent).1 % (x.overPower exponent).2 = rest at *
  generalize (x.overPower exponent).2 = den at *
  rw [hunits]
  push_cast
  rw [show ((x.lowDigits exponent : ℚ) + rest / den) * gridStep exponent -
        x.lowDigits exponent * gridStep exponent = rest / den * gridStep exponent by ring,
    show ((x.lowDigits exponent : ℚ) + 1) * gridStep exponent -
        (x.lowDigits exponent + rest / den) * gridStep exponent =
          (1 - rest / den) * gridStep exponent by ring,
    mul_lt_mul_iff_left₀ hstep, lt_sub_iff_add_lt, ← add_div, div_lt_one hdenQ, ← two_mul]
  exact_mod_cast Iff.rfl

/-- Of the points of a grid that are read as the double this one lies nearest to it, and it is the
upper one of two. -/
def IsNearest (x : Magnitude) (exponent : Int) (digits : Nat) : Prop :=
  ∀ k : Nat, Decimal.Reads ⟨k, exponent⟩ x →
    |digits * gridStep exponent - x.units| ≤ |k * gridStep exponent - x.units| ∧
      (|k * gridStep exponent - x.units| = |digits * gridStep exponent - x.units| → k ≤ digits)

theorem abs_eq_of_le_lowDigits {k : Nat} (h : k ≤ x.lowDigits exponent) :
    |k * gridStep exponent - x.units| = x.units - k * gridStep exponent ∧
      (k : ℚ) * gridStep exponent ≤ x.lowDigits exponent * gridStep exponent := by
  have hle : (k : ℚ) * gridStep exponent ≤ x.lowDigits exponent * gridStep exponent :=
    mul_le_mul_of_nonneg_right (by exact_mod_cast h) (gridStep_pos exponent).le
  have hlow := x.lowDigits_mul_le exponent
  rw [abs_of_nonpos (by linarith), neg_sub]
  exact ⟨rfl, hle⟩

theorem abs_eq_of_lowDigits_lt {k : Nat} (h : x.lowDigits exponent < k) :
    |k * gridStep exponent - x.units| = k * gridStep exponent - x.units ∧
      (x.lowDigits exponent + 1 : Nat) * gridStep exponent ≤ k * gridStep exponent := by
  have hle : ((x.lowDigits exponent + 1 : Nat) : ℚ) * gridStep exponent ≤ k * gridStep exponent :=
    mul_le_mul_of_nonneg_right (by exact_mod_cast h) (gridStep_pos exponent).le
  have hhigh := x.lt_lowDigits_succ_mul exponent
  rw [abs_of_nonneg (by linarith)]
  exact ⟨rfl, hle⟩

/-- The lower neighbour is the nearest if it lies nearer or nothing above is read as the double. -/
theorem isNearest_lowDigits
    (h : ∀ k : Nat, Decimal.Reads ⟨k, exponent⟩ x → x.lowDigits exponent < k →
      x.units - x.lowDigits exponent * gridStep exponent <
        (x.lowDigits exponent + 1 : Nat) * gridStep exponent - x.units) :
    x.IsNearest exponent (x.lowDigits exponent) := by
  intro k hk
  obtain ⟨hself, -⟩ := abs_eq_of_le_lowDigits (Nat.le_refl (x.lowDigits exponent))
  rw [hself]
  rcases Nat.lt_or_ge (x.lowDigits exponent) k with hlt | hle
  · have hnear := h k hk hlt
    obtain ⟨habs, hfar⟩ := abs_eq_of_lowDigits_lt hlt
    rw [habs]
    exact ⟨by linarith, fun heq => absurd heq (by linarith)⟩
  · obtain ⟨habs, hfar⟩ := abs_eq_of_le_lowDigits hle
    rw [habs]
    exact ⟨by linarith, fun _ => hle⟩

/-- The upper neighbour is the nearest if it lies as near or nothing below is read as the double. -/
theorem isNearest_lowDigits_succ
    (h : ∀ k : Nat, Decimal.Reads ⟨k, exponent⟩ x → k ≤ x.lowDigits exponent →
      (x.lowDigits exponent + 1 : Nat) * gridStep exponent - x.units ≤
        x.units - x.lowDigits exponent * gridStep exponent) :
    x.IsNearest exponent (x.lowDigits exponent + 1) := by
  intro k hk
  obtain ⟨hself, -⟩ := abs_eq_of_lowDigits_lt (Nat.lt_add_one (x.lowDigits exponent))
  rw [hself]
  rcases Nat.lt_or_ge (x.lowDigits exponent) k with hlt | hle
  · obtain ⟨habs, hfar⟩ := abs_eq_of_lowDigits_lt hlt
    rw [habs]
    refine ⟨by linarith, fun heq => ?_⟩
    have hsame : (k : ℚ) * gridStep exponent =
        (x.lowDigits exponent + 1 : Nat) * gridStep exponent := by linarith
    have := mul_right_cancel₀ (gridStep_pos exponent).ne' hsame
    exact Nat.le_of_eq (by exact_mod_cast this)
  · have hnear := h k hk hle
    obtain ⟨habs, hfar⟩ := abs_eq_of_le_lowDigits hle
    rw [habs]
    exact ⟨by linarith, fun _ => Nat.le_succ_of_le hle⟩

/-- If a point of a grid is read as the double, the neighbour on its side is. -/
theorem reads_lowDigits {k : Nat} (h : Decimal.Reads ⟨k, exponent⟩ x)
    (hle : k ≤ x.lowDigits exponent) : Decimal.Reads ⟨x.lowDigits exponent, exponent⟩ x := by
  have hlow := x.lowDigits_mul_le exponent
  refine reads_of_between h x.nearestTarget_units ?_ ?_
  · rw [value_mul_unitsPerOne, value_mul_unitsPerOne]
    exact (abs_eq_of_le_lowDigits hle).2
  · rwa [value_mul_unitsPerOne]

theorem reads_lowDigits_succ {k : Nat} (h : Decimal.Reads ⟨k, exponent⟩ x)
    (hlt : x.lowDigits exponent < k) : Decimal.Reads ⟨x.lowDigits exponent + 1, exponent⟩ x := by
  have hhigh := x.lt_lowDigits_succ_mul exponent
  refine reads_of_between x.nearestTarget_units h ?_ ?_
  · rw [value_mul_unitsPerOne]
    exact hhigh.le
  · rw [value_mul_unitsPerOne, value_mul_unitsPerOne]
    exact (abs_eq_of_lowDigits_lt hlt).2

/-- The search on a grid, which knows the neighbours by their digits. -/
theorem onGrid_eq (x : Magnitude) (tie : Tie) (exponent : Int) :
    x.onGrid tie exponent =
      let low := x.lowDigits exponent
      let rest := 2 * ((x.overPower exponent).1 % (x.overPower exponent).2)
      let nearer := if rest < (x.overPower exponent).2 then low
        else if (x.overPower exponent).2 < rest then low + 1 else tie.choose low
      if Decimal.toMagnitude? ⟨low, exponent⟩ = some x then
        if Decimal.toMagnitude? ⟨low + 1, exponent⟩ = some x then some ⟨nearer, exponent⟩
        else some ⟨low, exponent⟩
      else if Decimal.toMagnitude? ⟨low + 1, exponent⟩ = some x then some ⟨low + 1, exponent⟩
      else none := by
  simp only [onGrid, isReadFrom, beq_iff_eq]
  rfl

/-- Where nothing is found on a grid, nothing on it is read as the double. -/
theorem onGrid_eq_none (h : x.onGrid tie exponent = none) (k : Nat) :
    ¬ Decimal.Reads ⟨k, exponent⟩ x := by
  intro hk
  simp only [onGrid_eq] at h
  split at h
  · split at h <;> cases h
  · rename_i hlow
    split at h
    · cases h
    · rename_i hhigh
      rcases Nat.lt_or_ge (x.lowDigits exponent) k with hlt | hle
      · exact hhigh (reads_iff.1 (reads_lowDigits_succ hk hlt))
      · exact hlow (reads_iff.1 (reads_lowDigits hk hle))

/-- What is found on a grid is the nearest of its points that are read as the double. -/
theorem isNearest_of_onGrid (h : x.onGrid .up exponent = some d) :
    d.exponent = exponent ∧ d.Reads x ∧ d.digits ≤ x.lowDigits exponent + 1 ∧
      x.IsNearest exponent d.digits := by
  simp only [onGrid_eq, Tie.choose, ite_self] at h
  split at h
  · rename_i hlow
    split at h
    · rename_i hhigh
      obtain rfl := Option.some.inj h
      split
      · rename_i hnear
        have hnear := (x.rest_lt_iff exponent).1 hnear
        exact ⟨rfl, reads_iff.2 hlow, Nat.le_succ _, isNearest_lowDigits fun _ _ _ => hnear⟩
      · rename_i hfar
        have hfar := not_lt.1 ((x.rest_lt_iff exponent).not.1 hfar)
        exact ⟨rfl, reads_iff.2 hhigh, Nat.le_refl _, isNearest_lowDigits_succ fun _ _ _ => hfar⟩
    · rename_i hhigh
      obtain rfl := Option.some.inj h
      exact ⟨rfl, reads_iff.2 hlow, Nat.le_succ _, isNearest_lowDigits fun k hk hlt =>
        absurd (reads_iff.1 (reads_lowDigits_succ hk hlt)) hhigh⟩
  · rename_i hlow
    split at h
    · rename_i hhigh
      obtain rfl := Option.some.inj h
      exact ⟨rfl, reads_iff.2 hhigh, Nat.le_refl _, isNearest_lowDigits_succ fun k hk hle =>
        absurd (reads_iff.1 (reads_lowDigits hk hle)) hlow⟩
    · cases h

/-! ## How many digits are needed -/

theorem gridStep_add (exponent : Int) (k : Nat) :
    gridStep (exponent + k) = 10 ^ k * gridStep exponent := by
  rw [gridStep, gridStep, zpow_add₀ (by norm_num), zpow_natCast]
  ring

theorem pow_le_of_digitCount {n : Nat} (h : 0 < n) : 10 ^ (digitCount n - 1) ≤ n := by
  rcases Nat.eq_zero_or_pos (digitCount n - 1) with hone | hmore
  · rw [hone]
    exact h
  · by_contra hlt
    have := (Nat.length_toDigits_le_iff (by decide) hmore).2 (Nat.lt_of_not_le hlt)
    have : digitCount n ≤ digitCount n - 1 := this
    omega

/-- The whole part of so many places that a unit does not vanish has as many digits as the place of the
leading digit says. -/
theorem gridStep_le_units {places n : Nat} (hx : 0 < x.units) (hunit : unitsPerOne ≤ 10 ^ places)
    (hn : x.units * 10 ^ places / unitsPerOne = n) :
    gridStep (digitCount n - (places + 1 : Nat)) ≤ x.units ∧
      (x.units : ℚ) < gridStep (digitCount n - places) := by
  have hcount : 0 < digitCount n := Nat.length_toDigits_pos
  have hpos : 0 < n :=
    hn ▸ Nat.div_pos (Nat.le_trans hunit (Nat.le_mul_of_pos_left _ hx)) unitsPerOne_pos
  have hlow : 10 ^ (digitCount n - 1) * unitsPerOne ≤ x.units * 10 ^ places := by
    refine Nat.le_trans (Nat.mul_le_mul_right _ (pow_le_of_digitCount hpos)) ?_
    rw [← hn]
    exact Nat.div_mul_le_self _ _
  have hhigh : x.units * 10 ^ places < 10 ^ digitCount n * unitsPerOne := by
    refine Nat.lt_mul_of_div_lt ?_ unitsPerOne_pos
    rw [hn]
    exact Decimal.lt_pow_digitCount n
  have hscale (k : Nat) (exponent : Int) (h : exponent + places = k) :
      gridStep exponent * 10 ^ places = (10 ^ k * unitsPerOne : Nat) := by
    rw [mul_comm, ← gridStep_add, h, gridStep, zpow_natCast]
    push_cast
    rfl
  have hpower : (0 : ℚ) < 10 ^ places := by positivity
  constructor
  · refine le_of_mul_le_mul_right ?_ hpower
    rw [hscale (digitCount n - 1) _ (by omega)]
    exact_mod_cast hlow
  · refine lt_of_mul_lt_mul_right ?_ hpower.le
    rw [hscale (digitCount n) _ (by omega)]
    exact_mod_cast hhigh

/-- A unit is more than one at the last place that the search looks at. -/
theorem unitsPerOne_le_pow : unitsPerOne ≤ 10 ^ 324 := by decide +kernel

/-- The leading digit of a double stands where the search begins. -/
theorem leadingPlace_spec (hx : 0 < x.units) :
    gridStep x.leadingPlace ≤ x.units ∧ (x.units : ℚ) < gridStep (x.leadingPlace + 1) := by
  obtain ⟨hlow, hhigh⟩ := gridStep_le_units hx unitsPerOne_le_pow rfl
  have hplace : x.leadingPlace + 1 =
      digitCount (x.units * 10 ^ 324 / unitsPerOne) - (324 : Nat) := by
    unfold leadingPlace
    omega
  exact ⟨hlow, hplace ▸ hhigh⟩

theorem lowDigits_lt (hx : 0 < x.units) (more : Nat) :
    x.lowDigits (x.leadingPlace - more) < 10 ^ (more + 1) := by
  have hlow := x.lowDigits_mul_le (x.leadingPlace - more)
  have hhigh := (leadingPlace_spec hx).2
  have hplace : x.leadingPlace + 1 = (x.leadingPlace - more) + (more + 1 : Nat) := by
    push_cast
    ring
  rw [hplace, gridStep_add] at hhigh
  have := lt_of_mul_lt_mul_right (lt_of_le_of_lt hlow hhigh) (gridStep_pos _).le
  exact_mod_cast this

/-- Something is found on a grid that is finer than the doubles are. -/
theorem exists_onGrid_of_fine (tie : Tie) (hfine : 2 ^ 53 * gridStep exponent < x.units) :
    ∃ d, x.onGrid tie exponent = some d := by
  by_contra hnone
  have hnone : x.onGrid tie exponent = none :=
    Option.eq_none_iff_forall_ne_some.2 fun d hd => hnone ⟨d, hd⟩
  have hread (k : Nat)
      (hnear : 2 * |k * gridStep exponent - x.units| ≤ gridStep exponent) :
      Decimal.Reads ⟨k, exponent⟩ x := by
    rw [Decimal.Reads, value_mul_unitsPerOne]
    exact x.nearestTarget_of_close (by linarith)
  -- One of the two neighbours is at most half a step away.
  obtain ⟨hbelow, -⟩ := abs_eq_of_le_lowDigits (Nat.le_refl (x.lowDigits exponent))
  obtain ⟨habove, -⟩ := abs_eq_of_lowDigits_lt (Nat.lt_add_one (x.lowDigits exponent))
  rcases le_total (2 * (x.units - x.lowDigits exponent * gridStep exponent)) (gridStep exponent)
    with hle | hge
  · exact onGrid_eq_none hnone _ (hread _ (by rwa [hbelow]))
  · refine onGrid_eq_none hnone _ (hread (x.lowDigits exponent + 1) ?_)
    rw [habove]
    push_cast
    linarith

/-- With seventeen digits something is found. -/
theorem exists_onGrid (hx : 0 < x.units) (tie : Tie) :
    ∃ d, x.onGrid tie (x.leadingPlace - (16 : Nat)) = some d := by
  have hstep := gridStep_pos (x.leadingPlace - (16 : Nat))
  have hplace := (leadingPlace_spec hx).1
  rw [← Int.sub_add_cancel x.leadingPlace (16 : Nat), gridStep_add] at hplace
  exact exists_onGrid_of_fine tie (by linarith)

/-- A decimal that is read as the double lies on the grid for its count of digits and on all that are
finer, or a point of the grid is read as the double too and lies nearer. -/
theorem exists_grid_of_reads (hx : 0 < x.units) {other : Decimal} (h : other.Reads x) {more : Nat}
    (hmore : digitCount other.digits ≤ more + 1) :
    ∃ k : Nat, Decimal.Reads ⟨k, x.leadingPlace - more⟩ x ∧
      (other.value = Decimal.value ⟨k, x.leadingPlace - more⟩ ∨
        |k * gridStep (x.leadingPlace - more) - x.units| <
          |other.value * unitsPerOne - x.units|) := by
  obtain ⟨hlow, -⟩ := leadingPlace_spec hx
  have hunits : (0 : ℚ) < unitsPerOne := Nat.cast_pos.2 unitsPerOne_pos
  rcases Int.lt_or_le other.leadingPlace x.leadingPlace with hlt | hge
  · -- It lies below the power of ten where the double begins, which is nearer.
    have hother : other.value * unitsPerOne < gridStep x.leadingPlace := by
      refine lt_of_lt_of_le (mul_lt_mul_of_pos_right other.value_lt hunits) ?_
      exact mul_le_mul_of_nonneg_right (zpow_le_zpow_right₀ (by norm_num) hlt) hunits.le
    have hpower : ((10 ^ more : Nat) : ℚ) * gridStep (x.leadingPlace - more) =
        gridStep x.leadingPlace := by
      rw [Nat.cast_pow, Nat.cast_ofNat, ← gridStep_add, Int.sub_add_cancel]
    refine ⟨10 ^ more, ?_, .inr ?_⟩
    · have hvalue := value_mul_unitsPerOne (10 ^ more) (x.leadingPlace - more)
      rw [hpower] at hvalue
      exact reads_of_between h x.nearestTarget_units (hvalue ▸ hother.le) (hvalue ▸ hlow)
    · rw [hpower, abs_of_nonpos (by linarith), abs_of_nonpos (by linarith)]
      linarith
  · obtain ⟨j, hj⟩ : ∃ j : Nat, other.exponent = x.leadingPlace - more + j := by
      refine ⟨(other.exponent - (x.leadingPlace - more)).toNat, ?_⟩
      simp only [Decimal.leadingPlace] at hge
      omega
    have hvalue : other.value = Decimal.value ⟨other.digits * 10 ^ j, x.leadingPlace - more⟩ := by
      rw [Decimal.value, Decimal.value, hj, zpow_add₀ (by norm_num), zpow_natCast]
      push_cast
      ring
    refine ⟨other.digits * 10 ^ j, ?_, .inl hvalue⟩
    rw [Decimal.Reads, ← hvalue]
    exact h

end Magnitude

/-! ## Zeros at the end -/

namespace Decimal

theorem value_mul_ten (digits : Nat) (exponent : Int) :
    value ⟨digits * 10, exponent⟩ = value ⟨digits, exponent + 1⟩ := by
  rw [value, value, zpow_add_one₀ (by norm_num)]
  push_cast
  ring

theorem value_dropZeros (budget : Nat) (d : Decimal) : (dropZeros budget d).value = d.value := by
  induction budget generalizing d with
  | zero => rfl
  | succ budget ih =>
    rw [dropZeros]
    split
    · rename_i hzero
      have hdigits : d.digits / 10 * 10 = d.digits :=
        Nat.div_mul_cancel (Nat.dvd_of_mod_eq_zero hzero)
      rw [ih, ← value_mul_ten, hdigits]
    · rfl

theorem value_trim (d : Decimal) : d.trim.value = d.value := by
  rw [trim]
  split
  · rename_i hzero
    rw [value, value, hzero, Nat.cast_zero, zero_mul, zero_mul]
  · exact value_dropZeros _ d

theorem digits_dropZeros_le (budget : Nat) (d : Decimal) :
    (dropZeros budget d).digits ≤ d.digits := by
  induction budget generalizing d with
  | zero => exact Nat.le_refl _
  | succ budget ih =>
    rw [dropZeros]
    split
    · exact Nat.le_trans (ih _) (Nat.div_le_self _ _)
    · exact Nat.le_refl _

/-- Without the zeros at its end a number up to a power of ten has no more digits than what is below
this power. -/
theorem digitCount_trim_le {d : Decimal} {more : Nat} (h : d.digits ≤ 10 ^ (more + 1)) :
    digitCount d.trim.digits ≤ more + 1 := by
  refine (Nat.length_toDigits_le_iff (by decide) (Nat.succ_pos more)).2 ?_
  have hpos : 0 < 10 ^ more := Nat.pow_pos (by decide)
  rw [Nat.pow_succ] at h ⊢
  rw [trim]
  split
  · exact Nat.mul_pos hpos (by decide)
  · rename_i hne
    have hcount : 0 < digitCount d.digits := Nat.length_toDigits_pos
    obtain ⟨budget, hbudget⟩ := Nat.exists_eq_succ_of_ne_zero hcount.ne'
    rw [hbudget, dropZeros]
    split
    · have := digits_dropZeros_le budget ⟨d.digits / 10, d.exponent + 1⟩
      dsimp only at this
      omega
    · omega

end Decimal

/-! ## What the search finds -/

namespace Magnitude

variable {x : Magnitude}

/-- The search ends on a grid on which something is found and before which nothing is. -/
theorem exists_shortest (hx : 0 < x.units) :
    ∃ (more : Nat) (d : Decimal), x.onGrid .up (x.leadingPlace - more) = some d ∧
      (∀ less < more, x.onGrid .up (x.leadingPlace - (less : Nat)) = none) ∧
      x.shortest .up = d.trim := by
  obtain ⟨last, hlast⟩ := exists_onGrid hx .up
  have hsome : ((List.range 17).findSome? fun (more : Nat) =>
      x.onGrid .up (x.leadingPlace - (more : Int))).isSome := by
    rw [List.findSome?_isSome_iff]
    exact ⟨16, by simp, hlast ▸ rfl⟩
  obtain ⟨d, hd⟩ := Option.isSome_iff_exists.1 hsome
  obtain ⟨before, more, after, hrange, hfound, hnone⟩ := List.findSome?_eq_some_iff.1 hd
  refine ⟨more, d, hfound, fun less hless => ?_, by rw [shortest, hd]; rfl⟩
  refine hnone less ?_
  have hsorted : (before ++ more :: after).Pairwise (· < ·) := hrange ▸ List.pairwise_lt_range
  have hmem : less ∈ before ++ more :: after := by
    rw [← hrange, List.mem_range]
    have : more ∈ List.range 17 := hrange ▸ by simp
    exact Nat.lt_trans hless (List.mem_range.1 this)
  rcases List.mem_append.1 hmem with hbefore | hafter
  · exact hbefore
  · have hle : ∀ other ∈ more :: after, more ≤ other := by
      intro other hother
      rcases List.mem_cons.1 hother with rfl | hother
      · exact Nat.le_refl _
      · exact Nat.le_of_lt ((List.pairwise_cons.1 (List.pairwise_append.1 hsorted).2.1).1 _ hother)
    exact absurd hless (Nat.not_lt.2 (hle less hafter))

/-- The search finds the decimal with the fewest digits, the nearest one of these. -/
theorem isShortest_shortest (hx : 0 < x.units) : x.IsShortest (x.shortest .up) := by
  obtain ⟨more, d, hd, hnone, hshortest⟩ := exists_shortest hx
  obtain ⟨hexponent, hreads, hdigits, hnearest⟩ := isNearest_of_onGrid hd
  have hvalue : (x.shortest .up).value = d.value := by rw [hshortest, Decimal.value_trim]
  have hcount : digitCount (x.shortest .up).digits ≤ more + 1 := by
    rw [hshortest]
    exact Decimal.digitCount_trim_le (Nat.le_trans hdigits (lowDigits_lt hx more))
  have hunits : (x.shortest .up).value * unitsPerOne =
      d.digits * gridStep (x.leadingPlace - more) := by
    rw [hvalue, ← value_mul_unitsPerOne, ← hexponent]
  refine ⟨?_, fun other hother => ?_, fun other hother hsame => ?_,
    fun other hother hsame hdistance => ?_⟩
  · rw [Decimal.Reads, hvalue]
    exact hreads
  · by_contra hfewer
    have hpos : 0 < digitCount other.digits := Nat.length_toDigits_pos
    obtain ⟨k, hk, -⟩ := exists_grid_of_reads hx hother
      (show digitCount other.digits ≤ (digitCount other.digits - 1) + 1 by omega)
    exact onGrid_eq_none (hnone (digitCount other.digits - 1) (by omega)) k hk
  · obtain ⟨k, hk, hplace⟩ := exists_grid_of_reads hx hother (hsame.trans_le hcount)
    rw [hunits]
    refine le_trans (hnearest k hk).1 ?_
    rcases hplace with heq | hnearer
    · rw [heq, value_mul_unitsPerOne]
    · exact hnearer.le
  · obtain ⟨k, hk, hplace⟩ := exists_grid_of_reads hx hother (hsame.trans_le hcount)
    rw [hunits] at hdistance
    rcases hplace with heq | hnearer
    · rw [heq, value_mul_unitsPerOne] at hdistance
      rw [hvalue, heq, Decimal.value, Decimal.value, hexponent]
      refine mul_le_mul_of_nonneg_right ?_ (zpow_nonneg (by norm_num) _)
      exact_mod_cast (hnearest k hk).2 hdistance
    · exact absurd (hnearest k hk).1 (by linarith)

end Magnitude

end RecordQuery
