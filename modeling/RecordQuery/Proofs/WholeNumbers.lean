/-
RecordQuery.Proofs.WholeNumbers — how rules answer on whole numbers.

A whole number of JSON text is kept as it is, but a rule looks at it as a double.
Up to 2^53 nothing is lost: the double is the number, so rules compare numbers
and search their digits. Beyond, neighbouring numbers may share a double. They
are then equal to a rule, but rounding never exchanges two numbers, so what a
rule says is at worst that different numbers are equal.

Main definitions:
* `Whole.HasDouble` — the double of a whole number;
* `ExactAnswers`, `OrderKept` — what a rule answers up to 2^53, and at any size.

Main statements:
* `Whole.HasDouble.signedUnits_eq`, `Whole.HasDouble.text_eq` — up to 2^53 the
  double has the value and the digits of the number;
* `Whole.HasDouble.signedUnits_le` — doubles are ordered as the numbers are;
* `wholeNumbers_agree` — what this means for rules.
-/
import RecordQuery.Proofs.Double.ReadBack
import RecordQuery.Proofs.Operators

namespace RecordQuery

/-! ## Sizes -/

namespace Magnitude

variable {k : Nat} {x : Magnitude}

/-- One is a power of two in units, far enough below the end of the range. -/
theorem exists_unitsPerOne_eq : ∃ j, unitsPerOne = 2 ^ j ∧ 2 ^ 53 * 2 ^ j < unitsLimit :=
  ⟨1074, by rw [unitsPerOne], by decide +kernel⟩

/-- Up to 2^53 a natural number is a double. -/
theorem units_of_ofNat?_exact (hk : k ≤ 2 ^ 53) (h : ofNat? k = some x) :
    x.units = k * unitsPerOne := by
  obtain ⟨j, hunits, hlimit⟩ := exists_unitsPerOne_eq
  have hrepresentable : Representable (k * 2 ^ j) :=
    representable_of_le hk (Nat.lt_of_le_of_lt (Nat.mul_le_mul_right _ hk) hlimit)
  have hrounded := roundedUnits_mul hrepresentable Nat.one_pos
  rw [Nat.mul_one, ← hunits] at hrounded
  exact (units_of_ofRatio? h).trans hrounded

/-- A double that is a natural number of at most 21 digits is written as this number. -/
theorem plainChars_of_units (hk : k < 10 ^ 21) (h : x.units = k * unitsPerOne) :
    x.plainChars = Nat.toDigits 10 k := by
  have hintegral : x.isIntegral = true := by
    rw [isIntegral, h, Nat.mul_mod_left, beq_self_eq_true]
  have hsmall : x.units < 10 ^ 21 * unitsPerOne := by
    rw [h]
    exact Nat.mul_lt_mul_of_pos_right hk unitsPerOne_pos
  have hvalue : x.toNat = k := by
    rw [toNat, h, Nat.mul_div_cancel _ unitsPerOne_pos]
  rw [plainChars, hintegral, decide_eq_true hsmall, hvalue, Bool.and_self, if_pos rfl]

end Magnitude

/-! ## Whole numbers as doubles -/

/-- The decimal digits of an integer with its sign. -/
theorem signChars_append_toDigits (n : Int) :
    signChars (decide (n < 0)) ++ Nat.toDigits 10 n.natAbs = (toString n).toList := by
  cases n with
  | ofNat k =>
    show Nat.toDigits 10 k = (String.ofList (Nat.toDigits 10 k)).toList
    rw [String.toList_ofList]
  | negSucc k =>
    rw [decide_eq_true (Int.negSucc_lt_zero k), Int.natAbs_negSucc]
    show signChars true ++ Nat.toDigits 10 (k + 1) =
      ("-" ++ String.ofList (Nat.toDigits 10 (k + 1))).toList
    rw [String.toList_append, String.toList_ofList, String.toList_ofList]
    rfl

namespace Whole

/-- `x` is the double of the whole number `n`. -/
structure HasDouble (n : Whole) (x : FiniteDouble) : Prop where
  toDouble : (Number.whole n).toDouble = .finite x
  negative : x.negative = decide (n.value < 0)
  magnitude : Magnitude.ofNat? n.value.natAbs = some x.magnitude

/-- No whole number of JSON text is out of the range of doubles. -/
theorem exists_hasDouble (n : Whole) : ∃ x, n.HasDouble x := by
  obtain ⟨x, hx⟩ := (Number.whole n).exists_toDouble
  have hdouble := hx
  rw [Number.toDouble, Double.ofInt] at hx
  cases hmagnitude : Magnitude.ofNat? n.value.natAbs with
  | none =>
    rw [hmagnitude] at hx
    cases hx
  | some magnitude =>
    rw [hmagnitude] at hx
    cases hx
    exact ⟨_, hdouble, rfl, hmagnitude⟩

namespace HasDouble

variable {m n : Whole} {x y : FiniteDouble}

/-- Rounding does not exchange whole numbers. -/
theorem signedUnits_le (hm : m.HasDouble x) (hn : n.HasDouble y) (h : m.value ≤ n.value) :
    x.signedUnits ≤ y.signedUnits := by
  simp only [FiniteDouble.signedUnits, hm.negative, hn.negative]
  by_cases hmneg : m.value < 0 <;> by_cases hnneg : n.value < 0 <;>
    simp only [hmneg, hnneg, decide_true, decide_false, if_true, Bool.false_eq_true, if_false]
  · -- Below zero the smaller number has the larger size.
    have hunits := Json.units_le_of_ofNat? (by omega) hn.magnitude hm.magnitude
    omega
  · omega
  · omega
  · have hunits := Json.units_le_of_ofNat? (by omega) hm.magnitude hn.magnitude
    omega

/-- Up to 2^53 the double of a whole number is this number. -/
theorem signedUnits_eq (h : n.HasDouble x) (hexact : n.value.natAbs ≤ 2 ^ 53) :
    x.signedUnits = n.value * unitsPerOne := by
  have hunits : (x.magnitude.units : Int) = n.value.natAbs * unitsPerOne := by
    exact_mod_cast Magnitude.units_of_ofNat?_exact hexact h.magnitude
  simp only [FiniteDouble.signedUnits, h.negative, decide_eq_true_eq, hunits]
  split
  · rename_i hneg
    rw [← Int.neg_mul, Int.ofNat_natAbs_of_nonpos (Int.le_of_lt hneg), Int.neg_neg]
  · rename_i hpos
    rw [Int.natAbs_of_nonneg (Int.not_lt.1 hpos)]

/-- Up to 2^53 the display text of a whole number is its digits. -/
theorem text_eq (h : n.HasDouble x) (hexact : n.value.natAbs ≤ 2 ^ 53) :
    (Double.finite x).text.toList = (toString n.value).toList := by
  have hunits := Magnitude.units_of_ofNat?_exact hexact h.magnitude
  rw [Double.text]
  split
  · rename_i hzero
    rw [hunits] at hzero
    have hvalue : n.value = 0 :=
      Int.natAbs_eq_zero.1 ((Nat.mul_eq_zero.1 hzero).resolve_right
        (Nat.ne_of_gt unitsPerOne_pos))
    rw [hvalue]
    rfl
  · rw [String.toList_ofList, h.negative,
      Magnitude.plainChars_of_units (Nat.lt_of_le_of_lt hexact (by decide)) hunits]
    exact signChars_append_toDigits n.value

end HasDouble

end Whole

/-! ## Rules -/

/-- What a rule answers where nothing is lost, with `n` in the record and `m` in the rule: integers
are compared, and digits are searched. -/
structure ExactAnswers (Matches : Operator → Prop) (n m : Int) : Prop where
  equal : Matches .equal ↔ n = m
  less : Matches .less ↔ n < m
  greater : Matches .greater ↔ m < n
  contains : Matches .contains ↔ (toString m).toList <:+: (toString n).toList
  beginsWith : Matches .beginsWith ↔ (toString m).toList <+: (toString n).toList
  endsWith : Matches .endsWith ↔ (toString m).toList <:+ (toString n).toList

/-- What a rule answers at any size: never the opposite of the order, and `=` on equal numbers. -/
structure OrderKept (Matches : Operator → Prop) (n m : Int) : Prop where
  greater : n < m → ¬ Matches .greater
  less : m < n → ¬ Matches .less
  equal : n = m → Matches .equal

section Rules

variable {m n : Whole} {x y : FiniteDouble}

/-- A whole number is compared with another as their doubles are. -/
theorem Operator.holdsOf_ofOrdering_whole_iff (hn : n.HasDouble x) (order : Ordering) :
    (ofOrdering order).HoldsOf (.number (.whole n)) (.number (.finite y)) ↔
      compare x.signedUnits y.signedUnits = order := by
  rw [holdsOf_ofOrdering_iff, Json.compareWith?, hn.toDouble, Double.compare?, Option.some.injEq]

/-- Up to 2^53 the operators say of whole numbers what is true of the integers. -/
theorem exactAnswers_holdsOf (hn : n.HasDouble x) (hm : m.HasDouble y)
    (hnexact : n.value.natAbs ≤ 2 ^ 53) (hmexact : m.value.natAbs ≤ 2 ^ 53) :
    ExactAnswers (fun operator => operator.HoldsOf (.number (.whole n)) (.number (.finite y)))
      n.value m.value := by
  have horder := Operator.holdsOf_ofOrdering_whole_iff (y := y) hn
  have hpos : (0 : Int) < unitsPerOne := by exact_mod_cast unitsPerOne_pos
  rw [hn.signedUnits_eq hnexact, hm.signedUnits_eq hmexact] at horder
  have hneedle : (Literal.number (.finite y)).displayChars = (toString m.value).toList :=
    hm.text_eq hmexact
  have htext : (Json.number (.whole n)).displayChars = (toString n.value).toList := by
    rw [Json.displayChars, hn.toDouble]
    exact hn.text_eq hnexact
  constructor
  case equal =>
    exact (horder .eq).trans (compare_eq_iff_eq.trans (Int.mul_eq_mul_right_iff hpos.ne'))
  case less => exact (horder .lt).trans (compare_lt_iff_lt.trans (Int.mul_lt_mul_right hpos))
  case greater => exact (horder .gt).trans (compare_gt_iff_gt.trans (Int.mul_lt_mul_right hpos))
  all_goals rw [Operator.HoldsOf, shown_iff, hneedle, htext]

/-- At any size the operators keep the order of whole numbers. -/
theorem orderKept_holdsOf (hn : n.HasDouble x) (hm : m.HasDouble y) :
    OrderKept (fun operator => operator.HoldsOf (.number (.whole n)) (.number (.finite y)))
      n.value m.value := by
  have horder := Operator.holdsOf_ofOrdering_whole_iff (y := y) hn
  constructor
  case greater =>
    intro hlt hgreater
    have hle := hn.signedUnits_le hm (Int.le_of_lt hlt)
    exact absurd (compare_gt_iff_gt.1 ((horder .gt).1 hgreater)) (Int.not_lt.2 hle)
  case less =>
    intro hlt hless
    have hle := hm.signedUnits_le hn (Int.le_of_lt hlt)
    exact absurd (compare_lt_iff_lt.1 ((horder .lt).1 hless)) (Int.not_lt.2 hle)
  case equal =>
    intro heq
    refine (horder .eq).2 (compare_eq_iff_eq.2 (Int.le_antisymm ?_ ?_))
    · exact hn.signedUnits_le hm (Int.le_of_eq heq)
    · exact hm.signedUnits_le hn (Int.le_of_eq heq.symm)

/-- A number as the value of a rule is read as a number, unless its field is a boolean. -/
theorem Catalog.coerce_number {catalog : Catalog} {field : String}
    (hkind : catalog.kindOf field ≠ .boolean) (number : Number) :
    catalog.coerce field (.number number) = .number number.toDouble := by
  rw [coerce]
  cases h : catalog.kindOf field with
  | boolean => exact absurd h hkind
  | _ => rfl

/-- A rule asks a field of any kind but a boolean one for a whole number, and the record has a whole
number there: up to 2^53 it compares the numbers and searches their digits, and at any size it keeps
their order. -/
theorem wholeNumbers_agree (catalog : Catalog) (view : FieldView) (field : String) (n m : Whole)
    (hview : view field = some (.number (.whole n))) (hkind : catalog.kindOf field ≠ .boolean) :
    (n.value.natAbs ≤ 2 ^ 53 → m.value.natAbs ≤ 2 ^ 53 → ExactAnswers
      (fun operator => Rule.Matches catalog view ⟨field, operator, .number (.whole m)⟩)
      n.value m.value) ∧
    OrderKept (fun operator => Rule.Matches catalog view ⟨field, operator, .number (.whole m)⟩)
      n.value m.value := by
  obtain ⟨x, hn⟩ := n.exists_hasDouble
  obtain ⟨y, hm⟩ := m.exists_hasDouble
  have hpresent : ¬ Missing (some (.number (.whole n))) := by simp [Missing]
  simp only [Rule.matches_iff_of_present catalog hview hpresent,
    Catalog.coerce_number hkind, hm.toDouble]
  exact ⟨exactAnswers_holdsOf hn hm, orderKept_holdsOf hn hm⟩

end Rules

/-- The bound is sharp: the next number shares the double of 2^53. -/
example : Double.ofInt (2 ^ 53 + 1) = Double.ofInt (2 ^ 53) := by decide +kernel

/-- The first number of the range in which all numbers are exact. -/
def lowestExact : Whole := ⟨-(2 ^ 53), by decide, by decide⟩

/-- The last number of this range. -/
def highestExact : Whole := ⟨2 ^ 53, by decide, by decide⟩

/-- The number behind this range, which is rounded. -/
def firstRounded : Whole := ⟨2 ^ 53 + 1, by decide, by decide⟩

/-- A record with a count. -/
def countView (n : Whole) : FieldView := fun name =>
  if name = "count" then some (.number (.whole n)) else none

/-- The catalog in which the count is a number. -/
def countCatalog : Catalog := ⟨[⟨"count", none, .number, none⟩]⟩

/-- The two ends of the range are told apart, in a field that is text because it is not listed,
though one ends with the digits of the other; the number behind the range is not less than its
end. -/
theorem wholeNumbers_agree_ends :
    countView lowestExact "count" = some (.number (.whole lowestExact)) ∧
    Catalog.empty.kindOf "count" ≠ .boolean ∧
    lowestExact.value.natAbs ≤ 2 ^ 53 ∧ highestExact.value.natAbs ≤ 2 ^ 53 ∧
    Rule.Matches .empty (countView lowestExact) ⟨"count", .less, .number (.whole highestExact)⟩ ∧
    Rule.Matches .empty (countView lowestExact)
      ⟨"count", .endsWith, .number (.whole highestExact)⟩ ∧
    ¬ Rule.Matches .empty (countView lowestExact)
      ⟨"count", .beginsWith, .number (.whole highestExact)⟩ ∧
    highestExact.value < firstRounded.value ∧
    ¬ Rule.Matches countCatalog (countView firstRounded)
      ⟨"count", .less, .number (.whole highestExact)⟩ := by
  have htext : Catalog.empty.kindOf "count" ≠ .boolean := by decide
  have hnumber : countCatalog.kindOf "count" ≠ .boolean := by decide
  have hlow : lowestExact.value.natAbs ≤ 2 ^ 53 := by decide
  have hhigh : highestExact.value.natAbs ≤ 2 ^ 53 := by decide
  have hnext : highestExact.value < firstRounded.value := by decide
  have hexact := (wholeNumbers_agree .empty (countView lowestExact) "count" lowestExact highestExact
    rfl htext).1 hlow hhigh
  have hkept := (wholeNumbers_agree countCatalog (countView firstRounded) "count" firstRounded
    highestExact rfl hnumber).2
  exact ⟨rfl, htext, hlow, hhigh, hexact.less.2 (by decide), hexact.endsWith.2 (by decide),
    fun h => absurd (hexact.beginsWith.1 h) (by decide), hnext, hkept.less hnext⟩

end RecordQuery
