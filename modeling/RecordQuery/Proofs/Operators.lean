/-
RecordQuery.Proofs.Operators — how the operators stand to each other.

A rule asks either for the order of two values or for a part of a display text.
Within the order the operators are those of a linear order, but only where there
is one: numbers other than NaN, texts by their bytes, truth values. Elsewhere
none of them matches. The two ways of asking meet at `=`: values that are equal
are displayed alike, also where they are not the same value, as the two zeros
are not.

Main statements:
* `displayChars_eq_of_compareWith?` — equal values are displayed alike;
* `Literal.AtMost.native` — literals in order are two elements of one linear
  order, whatever value they are compared with;
* `operators_agree` — the laws, for a field of any record.
-/
import RecordQuery.Proofs.Dependence
import RecordQuery.Proofs.Text.ByteOrder

namespace RecordQuery

/-! ## What is ordered -/

theorem Double.value?_eq_none_iff (x : Double) : x.value? = none ↔ x = .nan := by
  cases x with
  | nan => simp [value?]
  | infinity negative => cases negative <;> simp [value?]
  | finite x => simp [value?]

/-- A value and a literal that have an order: two numbers other than NaN, two texts, two truth
values. -/
def Comparable : Json → Literal → Prop
  | .number n, .number x => n.toDouble ≠ .nan ∧ x ≠ .nan
  | .string _, .text _ => True
  | .bool _, .bool _ => True
  | _, _ => False

/-- Two literals of one ordered kind, the first at most the second: numbers other than NaN by their
values, texts by their bytes, and false before true. -/
def Literal.AtMost : Literal → Literal → Prop
  | .number x, .number y => ∃ a b, x.value? = some a ∧ y.value? = some b ∧ a ≤ b
  | .text s, .text t => utf8Bytes s ≤ utf8Bytes t
  | .bool a, .bool b => a ≤ b
  | _, _ => False

theorem Double.isSome_compare?_iff (x y : Double) :
    (x.compare? y).isSome ↔ x ≠ .nan ∧ y ≠ .nan := by
  rw [Ne, Ne, ← value?_eq_none_iff, ← value?_eq_none_iff]
  cases hx : x.value? with
  | none => simp [compare?_of_value?_eq_none (.inl hx)]
  | some a =>
    cases hy : y.value? with
    | none => simp [compare?_of_value?_eq_none (.inr hy)]
    | some b => simp [compare?_of_value? hx hy]

/-- What has an order is what is compared. -/
theorem comparable_iff (value : Json) (literal : Literal) :
    Comparable value literal ↔ ∃ order, value.compareWith? literal = some order := by
  rw [← Option.isSome_iff_exists]
  fun_cases Json.compareWith? value literal with
  | case1 n x => exact (Double.isSome_compare?_iff _ _).symm
  | case2 s t => simp [Comparable]
  | case3 a b => simp [Comparable]
  | case4 _ _ hnumber htext hbool =>
    simp only [Option.isSome_none, Bool.false_eq_true, iff_false]
    unfold Comparable
    split
    · exact fun _ => hnumber _ _ rfl rfl
    · exact fun _ => htext _ _ rfl rfl
    · exact fun _ => hbool _ _ rfl rfl
    · exact id

/-- Literals in order are two elements of one linear order: a value either stands in it beside
them, or is in no relation to either. -/
theorem Literal.AtMost.native {low high : Literal} (h : low.AtMost high) (value : Json) :
    (∃ (α : Type) (_ : LinearOrder α) (v a b : α), a ≤ b ∧ ∀ relation,
      (Native relation value low ↔ relation α v a) ∧
        (Native relation value high ↔ relation α v b)) ∨
    ∀ relation, ¬ Native relation value low ∧ ¬ Native relation value high := by
  cases low <;> cases high <;> try exact h.elim
  case number.number x y =>
    obtain ⟨a, b, ha, hb, hab⟩ := h
    cases value with
    | number n =>
      cases hv : n.toDouble.value? with
      | none => exact .inr fun relation => by simp [native_number_iff, hv]
      | some v =>
        exact .inl ⟨_, _, v, a, b, hab, fun relation => by simp [native_number_iff, hv, ha, hb]⟩
    | _ => exact .inr fun relation => ⟨id, id⟩
  case text.text s t =>
    cases value with
    | string text =>
      exact .inl ⟨_, _, text, s, t, (utf8Bytes_le_iff s t).1 h, fun _ => ⟨Iff.rfl, Iff.rfl⟩⟩
    | _ => exact .inr fun relation => ⟨id, id⟩
  case bool.bool a b =>
    cases value with
    | bool v => exact .inl ⟨_, _, v, a, b, h, fun _ => ⟨Iff.rfl, Iff.rfl⟩⟩
    | _ => exact .inr fun relation => ⟨id, id⟩

/-! ## Equal values are displayed alike -/

/-- Finite doubles of one value differ by the sign of zero at most. -/
theorem FiniteDouble.unsignedZero_eq_of_signedUnits {x y : FiniteDouble}
    (h : x.signedUnits = y.signedUnits) : x.unsignedZero = y.unsignedZero := by
  obtain ⟨negative, m, hm⟩ := x
  obtain ⟨negative', n, hn⟩ := y
  have hunits : m = n := by
    cases negative <;> cases negative' <;> simp [signedUnits] at h <;> omega
  subst hunits
  by_cases hzero : m = 0
  · simp [unsignedZero, hzero]
  · have hsign : negative = negative' := by
      cases negative <;> cases negative' <;> simp [signedUnits] at h ⊢ <;> omega
    rw [hsign]

theorem Double.text_eq_of_compare? {x y : Double} (h : x.compare? y = some .eq) :
    x.text = y.text := by
  cases x with
  | nan => cases h
  | infinity negative =>
    cases y with
    | nan => cases negative <;> cases h
    | infinity negative' => cases negative <;> cases negative' <;> first | rfl | cases h
    | finite y => cases negative <;> cases h
  | finite x =>
    cases y with
    | nan => cases h
    | infinity negative => cases negative <;> cases h
    | finite y =>
      have hunits : x.signedUnits = y.signedUnits := compare_eq_iff_eq.1 (Option.some.inj h)
      rw [← text_unsignedZero x, ← text_unsignedZero y,
        FiniteDouble.unsignedZero_eq_of_signedUnits hunits]

theorem compareText_eq_eq_iff (s t : String) : compareText s t = .eq ↔ s = t := by
  rw [compareText_eq_cmp, cmp_eq_eq_iff]

theorem compareBool_eq_eq_iff (a b : Bool) : compareBool a b = .eq ↔ a = b := by
  rw [compareBool_eq_cmp, cmp_eq_eq_iff]

/-- A value that is equal to a literal is displayed as the literal is. -/
theorem displayChars_eq_of_compareWith? {value : Json} {literal : Literal}
    (h : value.compareWith? literal = some .eq) : literal.displayChars = value.displayChars := by
  cases value <;> cases literal <;> try exact (Option.some_ne_none _ h.symm).elim
  case number.number n x =>
    rw [Literal.displayChars, Json.displayChars, Double.text_eq_of_compare? h]
  case string.text s t =>
    rw [(compareText_eq_eq_iff s t).1 (Option.some.inj h), Literal.displayChars, Json.displayChars]
  case bool.bool a b =>
    obtain rfl := (compareBool_eq_eq_iff a b).1 (Option.some.inj h)
    cases a <;> rw [Literal.displayChars, Json.displayChars]

/-! ## The laws -/

/-- The operators that ask for one outcome of a comparison. -/
def Operator.comparisons : List Operator := [.less, .equal, .greater]

/-- The operator that asks for an outcome. -/
def Operator.ofOrdering : Ordering → Operator
  | .lt => .less
  | .eq => .equal
  | .gt => .greater

theorem Operator.mem_comparisons_iff (operator : Operator) :
    operator ∈ comparisons ↔ ∃ order, operator = ofOrdering order := by
  constructor
  · intro h
    simp only [comparisons, List.mem_cons, List.not_mem_nil, or_false] at h
    rcases h with rfl | rfl | rfl
    · exact ⟨.lt, rfl⟩
    · exact ⟨.eq, rfl⟩
    · exact ⟨.gt, rfl⟩
  · rintro ⟨order, rfl⟩
    cases order <;> simp [comparisons, ofOrdering]

/-- How the operators stand to each other on one value and one literal. -/
structure OperatorLaws (Matches : Operator → Prop) (comparable : Prop) : Prop where
  /-- At most one of `<`, `=` and `>` matches. -/
  atMostOne : ∀ first ∈ Operator.comparisons, ∀ second ∈ Operator.comparisons,
    Matches first → Matches second → first = second
  /-- One does exactly if the two sides can be compared. -/
  exactlyOne : (∃! operator, operator ∈ Operator.comparisons ∧ Matches operator) ↔ comparable
  /-- `<=` is `<` or `=`. -/
  atMost : Matches .atMost ↔ Matches .less ∨ Matches .equal
  /-- `>=` is `>` or `=`. -/
  atLeast : Matches .atLeast ↔ Matches .greater ∨ Matches .equal
  /-- What is equal begins and ends with the other side and contains it. -/
  equal : Matches .equal → Matches .beginsWith ∧ Matches .endsWith ∧ Matches .contains
  /-- What begins with a text contains it. -/
  beginsWith : Matches .beginsWith → Matches .contains
  /-- What ends with a text contains it. -/
  endsWith : Matches .endsWith → Matches .contains

/-- How the operators answer at two thresholds, the first being at most the second. -/
structure ThresholdLaws (Low High : Operator → Prop) : Prop where
  less : Low .less → High .less
  atMost : Low .atMost → High .atMost
  greater : High .greater → Low .greater
  atLeast : High .atLeast → Low .atLeast

theorem Operator.holdsOf_ofOrdering_iff (value : Json) (literal : Literal) (order : Ordering) :
    (ofOrdering order).HoldsOf value literal ↔ value.compareWith? literal = some order := by
  rw [compareWith?_eq_some_iff]
  cases order with
  | lt => simp only [ofOrdering, HoldsOf, cmp_eq_lt_iff]
  | eq => simp only [ofOrdering, HoldsOf, cmp_eq_eq_iff]
  | gt => simp only [ofOrdering, HoldsOf, cmp_eq_gt_iff]

/-- The laws hold of what the operators say of a value that is present. -/
theorem operatorLaws_holdsOf (value : Json) (literal : Literal) :
    OperatorLaws (fun operator => operator.HoldsOf value literal) (Comparable value literal) where
  atMostOne := by
    intro first hfirst second hsecond hmatches hmatches'
    obtain ⟨order, rfl⟩ := (Operator.mem_comparisons_iff first).1 hfirst
    obtain ⟨order', rfl⟩ := (Operator.mem_comparisons_iff second).1 hsecond
    rw [Operator.holdsOf_ofOrdering_iff] at hmatches hmatches'
    rw [Option.some.inj (hmatches.symm.trans hmatches')]
  exactlyOne := by
    rw [comparable_iff]
    constructor
    · rintro ⟨operator, ⟨hmem, hmatches⟩, -⟩
      obtain ⟨order, rfl⟩ := (Operator.mem_comparisons_iff operator).1 hmem
      exact ⟨order, (Operator.holdsOf_ofOrdering_iff value literal order).1 hmatches⟩
    · rintro ⟨order, horder⟩
      refine ⟨.ofOrdering order, ⟨(Operator.mem_comparisons_iff _).2 ⟨order, rfl⟩,
        (Operator.holdsOf_ofOrdering_iff value literal order).2 horder⟩, ?_⟩
      rintro operator ⟨hmem, hmatches⟩
      obtain ⟨order', rfl⟩ := (Operator.mem_comparisons_iff operator).1 hmem
      rw [Operator.holdsOf_ofOrdering_iff] at hmatches
      rw [Option.some.inj (hmatches.symm.trans horder)]
  atMost := native_le_iff value literal
  atLeast := native_ge_iff value literal
  equal := by
    intro hequal
    have hdisplay := displayChars_eq_of_compareWith?
      ((Operator.holdsOf_ofOrdering_iff value literal .eq).1 hequal)
    simp only [Operator.HoldsOf, shown_iff, hdisplay]
    exact ⟨List.prefix_rfl, List.suffix_rfl, List.infix_rfl⟩
  beginsWith := by
    simp only [Operator.HoldsOf, shown_iff]
    exact List.IsPrefix.isInfix
  endsWith := by
    simp only [Operator.HoldsOf, shown_iff]
    exact List.IsSuffix.isInfix

/-- The laws of thresholds hold of what the operators say of a value that is present. -/
theorem thresholdLaws_holdsOf {low high : Literal} (h : low.AtMost high) (value : Json) :
    ThresholdLaws (fun operator => operator.HoldsOf value low)
      (fun operator => operator.HoldsOf value high) := by
  rcases h.native value with ⟨_, _, v, a, b, hab, hnative⟩ | hnone
  · constructor <;> simp only [Operator.HoldsOf, hnative]
    · exact fun hlow => lt_of_lt_of_le hlow hab
    · exact fun hlow => le_trans hlow hab
    · exact fun hhigh => lt_of_le_of_lt hab hhigh
    · exact fun hhigh => le_trans hab hhigh
  · constructor <;> simp [Operator.HoldsOf, hnone]

/-! ## Records -/

/-- A rule matches a record, seen through its fields. -/
def Rule.Matches (catalog : Catalog) (view : FieldView) (rule : Rule) : Prop :=
  ((Query.rule rule).compile catalog).accepts view = true

/-- The value of a rule as the kind of its field has it. -/
def Catalog.coerce (catalog : Catalog) (field : String) (value : Json) : Literal :=
  Literal.coerce (catalog.kindOf field) value

section Records

variable (catalog : Catalog) (view : FieldView) (field : String)

theorem Rule.matches_iff_holds (rule : Rule) :
    rule.Matches catalog view ↔ rule.Holds catalog view := by
  rw [Matches, Query.compile, Predicate.accepts]
  exact Test.passes_compile_iff catalog view rule

variable {view field}

theorem Rule.matches_iff_of_present {value : Json} (hview : view field = some value)
    (hpresent : ¬ Missing (some value)) (operator : Operator) (raw : Json) :
    Rule.Matches catalog view ⟨field, operator, raw⟩ ↔
      operator.HoldsOf value (catalog.coerce field raw) := by
  rw [matches_iff_holds, holds_iff, hview, Catalog.coerce]
  simp [hpresent]

theorem Rule.matches_iff_of_missing (hmissing : Missing (view field)) (operator : Operator)
    (raw : Json) :
    Rule.Matches catalog view ⟨field, operator, raw⟩ ↔
      operator.HoldsOfMissing (catalog.coerce field raw) := by
  rw [matches_iff_holds, holds_iff, Catalog.coerce]
  simp [hmissing]

variable (view field)

/-- The laws of the operators on a field of a record: where the value is there, for every rule
value; at two rule values whose coerced forms are in order, whether the value is there or not; and
a missing value is in no order. -/
theorem operators_agree :
    (∀ value raw, view field = some value → ¬ Missing (some value) →
      OperatorLaws (fun operator => Rule.Matches catalog view ⟨field, operator, raw⟩)
        (Comparable value (catalog.coerce field raw))) ∧
    (∀ low high, (catalog.coerce field low).AtMost (catalog.coerce field high) →
      ThresholdLaws (fun operator => Rule.Matches catalog view ⟨field, operator, low⟩)
        (fun operator => Rule.Matches catalog view ⟨field, operator, high⟩)) ∧
    (Missing (view field) → ∀ raw, ∀ operator ∈ [.less, .greater, .atMost, .atLeast],
      ¬ Rule.Matches catalog view ⟨field, operator, raw⟩) := by
  have hmissing (h : Missing (view field)) (raw : Json) :
      ∀ operator ∈ [.less, .greater, .atMost, .atLeast],
        ¬ Rule.Matches catalog view ⟨field, operator, raw⟩ := by
    intro operator hmem
    rw [Rule.matches_iff_of_missing catalog h]
    fin_cases hmem <;> exact id
  refine ⟨fun value raw hview hpresent => ?_, fun low high hlow => ?_, hmissing⟩
  · simp only [Rule.matches_iff_of_present catalog hview hpresent]
    exact operatorLaws_holdsOf value _
  · by_cases h : Missing (view field)
    · constructor <;> exact fun hmatches => absurd hmatches (hmissing h _ _ (by simp))
    · cases hview : view field with
      | none => exact absurd (.inl hview) h
      | some value =>
        rw [hview] at h
        simp only [Rule.matches_iff_of_present catalog hview h]
        exact thresholdLaws_holdsOf hlow value

end Records

/-- A record whose score is the zero with a minus sign. -/
def zeroView : FieldView := fun name =>
  if name = "score" then some (.number (.double ⟨true, .zero⟩)) else none

/-- The catalog in which that score is a number. -/
def zeroCatalog : Catalog := ⟨[⟨"score", none, .number, none⟩]⟩

/-- The zero with a minus sign equals the one that the rule value is read as, which is displayed
without a sign; and it stays below a threshold that is raised. -/
theorem operators_agree_zero :
    ¬ Missing (zeroView "score") ∧
      Rule.Matches zeroCatalog zeroView ⟨"score", .equal, .string " 0 points"⟩ ∧
      Rule.Matches zeroCatalog zeroView ⟨"score", .beginsWith, .string " 0 points"⟩ ∧
      (zeroCatalog.coerce "score" (.string " 0 points")).AtMost
        (zeroCatalog.coerce "score" (.string "Infinity")) ∧
      Rule.Matches zeroCatalog zeroView ⟨"score", .atMost, .string "Infinity"⟩ := by
  have hview : zeroView "score" = some (.number (.double ⟨true, .zero⟩)) := rfl
  have hpresent : ¬ Missing (some (.number (.double ⟨true, .zero⟩))) := by simp [Missing]
  have hequal : Rule.Matches zeroCatalog zeroView ⟨"score", .equal, .string " 0 points"⟩ := by
    unfold Rule.Matches
    cbv
  have hlow : (zeroCatalog.coerce "score" (.string " 0 points")).AtMost
      (zeroCatalog.coerce "score" (.string "Infinity")) := by
    have hzero : Double.ofText " 0 points" = .finite ⟨false, .zero⟩ := by cbv
    have hinfinity : Double.ofText "Infinity" = .infinity false := by cbv
    exact ⟨0, ⊤, congrArg Double.value? hzero, congrArg Double.value? hinfinity, le_top⟩
  obtain ⟨hlaws, hthresholds, -⟩ := operators_agree zeroCatalog zeroView "score"
  have laws := hlaws _ (.string " 0 points") hview hpresent
  have thresholds := hthresholds _ _ hlow
  exact ⟨hview ▸ hpresent, hequal, (laws.equal hequal).1, hlow,
    thresholds.atMost (laws.atMost.2 (.inr hequal))⟩

end RecordQuery
