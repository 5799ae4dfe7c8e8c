/-
RecordQuery.Double.Magnitude — finite non-negative doubles as natural numbers.

Every finite double is a whole number of *units*, a unit being 2^-1074, the
smallest positive double. A `Magnitude` is such a number together with the
reason why a double holds it: a significand below 2^53 and a power of two.
Products and quotients are exact on units and then rounded once.

Main definitions:
* `Representable n` — some double is `n` units;
* `Magnitude.ofRatio? num den` — the double nearest to `num / den` units, ties to
  the even significand, nothing when it lies beyond the largest double;
* `Magnitude.ofNat?`, `Magnitude.mul?`, `Magnitude.div?`.
-/

namespace RecordQuery

-- Powers of natural numbers are those of the core library, whatever else is imported.
attribute [scoped instance (high), default_instance (high + 1)] instPowNat

/-- How many units make one: 2^1074. -/
def unitsPerOne : Nat := 2 ^ 1074

/-- The scale of the largest doubles: their significand counts 2^2045 units. -/
def maxScale : Nat := 2045

/-- The first power of two beyond every double, in units. -/
def unitsLimit : Nat := 2 ^ (53 + maxScale)

/-- Some double has the value of `n` units. -/
def Representable (n : Nat) : Prop :=
  ∃ m k : Nat, m < 2 ^ 53 ∧ k ≤ maxScale ∧ n = m * 2 ^ k

/-- A finite non-negative double, measured in units. -/
structure Magnitude where
  units : Nat
  representable : Representable units
  deriving DecidableEq

/-! ## Which numbers are representable -/

theorem representable_zero : Representable 0 := ⟨0, 0, by decide, by decide, rfl⟩

/-- A significand of at most 2^53 can be written with one below 2^53 and a scale up to `top`, as
long as the number itself stays below the end of the range. -/
theorem exists_significand {m k top : Nat} (hm : m ≤ 2 ^ 53) (hlt : m * 2 ^ k < 2 ^ (53 + top)) :
    ∃ n j : Nat, n < 2 ^ 53 ∧ j ≤ top ∧ m * 2 ^ k = n * 2 ^ j := by
  rcases Nat.eq_zero_or_pos m with rfl | hpos
  · exact ⟨0, 0, by decide, Nat.zero_le _, by rw [Nat.zero_mul, Nat.zero_mul]⟩
  rcases Nat.lt_or_ge top k with hk | hk
  · have hsplit : m * 2 ^ k = m * 2 ^ (k - top) * 2 ^ top := by
      rw [Nat.mul_assoc, ← Nat.pow_add, Nat.sub_add_cancel (Nat.le_of_lt hk)]
    refine ⟨m * 2 ^ (k - top), top, ?_, Nat.le_refl _, hsplit⟩
    rw [hsplit, Nat.pow_add] at hlt
    exact Nat.lt_of_mul_lt_mul_right hlt
  · rcases Nat.lt_or_eq_of_le hm with h | rfl
    · exact ⟨m, k, h, hk, rfl⟩
    · rw [← Nat.pow_add] at hlt
      have hscale : 53 + k < 53 + top := (Nat.pow_lt_pow_iff_right (by decide)).1 hlt
      refine ⟨2 ^ 52, k + 1, by decide, Nat.lt_of_add_lt_add_left hscale, ?_⟩
      rw [← Nat.pow_add, ← Nat.pow_add]
      congr 1
      omega

/-- A significand of at most 2^53 is representable at every scale that stays in range. -/
theorem representable_of_le {m k : Nat} (hm : m ≤ 2 ^ 53) (hlt : m * 2 ^ k < unitsLimit) :
    Representable (m * 2 ^ k) :=
  exists_significand hm hlt

/-! ## Rounding -/

/-- The whole number nearest to `num / den`; a half goes to the even neighbour. -/
def nearestEven (num den : Nat) : Nat :=
  let whole := num / den
  let rest := num % den
  if 2 * rest < den then whole
  else if den < 2 * rest then whole + 1
  else whole + whole % 2

theorem nearestEven_le (num den : Nat) : nearestEven num den ≤ num / den + 1 := by
  simp only [nearestEven]
  split
  · omega
  · split <;> omega

/-- The number of low bits that a double cannot keep beside the leading bit of `n`. -/
def spareBits (n : Nat) : Nat := n.log2 - 52

theorem div_two_pow_spareBits_lt (n : Nat) : n / 2 ^ spareBits n < 2 ^ 53 := by
  rw [Nat.div_lt_iff_lt_mul (Nat.two_pow_pos _), ← Nat.pow_add]
  refine Nat.lt_of_lt_of_le Nat.lt_log2_self (Nat.pow_le_pow_right (by decide) ?_)
  simp only [spareBits]
  omega

namespace Magnitude

/-- The double zero. -/
def zero : Magnitude := ⟨0, representable_zero⟩

instance : Inhabited Magnitude := ⟨zero⟩

/-- The units of the double nearest to `num / den` units, before the range is looked at. -/
def roundedUnits (num den : Nat) : Nat :=
  let spare := spareBits (num / den)
  nearestEven num (den * 2 ^ spare) * 2 ^ spare

theorem representable_roundedUnits {num den : Nat} (h : roundedUnits num den < unitsLimit) :
    Representable (roundedUnits num den) := by
  refine representable_of_le ?_ h
  refine Nat.le_trans (nearestEven_le _ _) ?_
  rw [← Nat.div_div_eq_div_mul]
  exact div_two_pow_spareBits_lt _

/-- The double nearest to `num / den` units, ties to even; nothing beyond the largest double. -/
def ofRatio? (num den : Nat) : Option Magnitude :=
  if h : roundedUnits num den < unitsLimit then
    some ⟨roundedUnits num den, representable_roundedUnits h⟩
  else none

/-- The double nearest to a natural number. -/
def ofNat? (n : Nat) : Option Magnitude := ofRatio? (n * unitsPerOne) 1

/-- The product, rounded once. -/
def mul? (x y : Magnitude) : Option Magnitude := ofRatio? (x.units * y.units) unitsPerOne

/-- The quotient by a double other than zero, rounded once. -/
def div? (x y : Magnitude) : Option Magnitude := ofRatio? (x.units * unitsPerOne) y.units

/-- The value is a whole number. -/
def isIntegral (x : Magnitude) : Bool := x.units % unitsPerOne == 0

/-- The whole part of the value. -/
def toNat (x : Magnitude) : Nat := x.units / unitsPerOne

/-- Place in the increasing list of all finite non-negative doubles. It is also the 63 low bits of
the interchange format, where the exponent field stands above 52 bits of fraction. -/
def place (x : Magnitude) : Nat :=
  let spare := spareBits x.units
  spare * 2 ^ 52 + x.units / 2 ^ spare

/-- The double with a given place; nothing for the places of infinity and of no number. -/
def ofPlace? (p : Nat) : Option Magnitude :=
  let field := p / 2 ^ 52
  let fraction := p % 2 ^ 52
  if h : field < 2047 then
    if field = 0 then
      some ⟨fraction * 2 ^ 0, fraction, 0,
        Nat.lt_of_lt_of_le (Nat.mod_lt _ (by decide)) (by decide), by decide, rfl⟩
    else
      some ⟨(fraction + 2 ^ 52) * 2 ^ (field - 1), fraction + 2 ^ 52, field - 1,
        by
          have : fraction < 2 ^ 52 := Nat.mod_lt _ (by decide)
          omega,
        by simp only [maxScale]; omega, rfl⟩
  else none

end Magnitude

end RecordQuery
