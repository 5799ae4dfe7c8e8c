/-
RecordQuery.Proofs.Meaning — what a query says of a record.

`Query.Holds` is the meaning of a tree as the rules of the language give it:
groups are conjunctions and disjunctions, and a rule compares the value of its
field with its own value, read as the kind of the field has it. Nothing is
prepared, and nothing is computed as the program does it: rule values are read
by `Coerces` and searched by `Shows`. Comparison is that of the ordered types
behind the values (`Native`): texts, truth values, and numbers by their exact
value, where what is no number has none.

Main statements:
* `compareWith?_spec` — comparison of values is comparison in an ordered type;
* `Test.passes_compile_iff` — a compiled rule decides the meaning of the rule;
* `Query.accepts_compile_iff` — a compiled tree decides the meaning of the tree.
-/
import RecordQuery.Predicate
import RecordQuery.Proofs.Coercion
import Mathlib

namespace RecordQuery

/-! ## Comparison by native order -/

/-- The exact value of a number in units of 2^-1074, with the two infinities at the ends. -/
def Double.value? : Double → Option (WithBot (WithTop Int))
  | .nan => none
  | .infinity true => some ⊥
  | .infinity false => some ⊤
  | .finite ⟨negative, magnitude⟩ =>
    let units : Int := if negative then -magnitude.units else magnitude.units
    some ((units : WithTop Int) : WithBot (WithTop Int))

/-- The two sides are of one kind, and the relation holds between them there. -/
def Native (relation : (α : Type) → [LinearOrder α] → α → α → Prop) : Json → Literal → Prop
  | .number n, .number x =>
    ∃ y a b, n.HasValue y ∧ y.value? = some a ∧ x.value? = some b ∧ relation _ a b
  | .string s, .text t => relation _ s t
  | .bool a, .bool b => relation _ a b
  | _, _ => False

theorem native_number_iff (relation : (α : Type) → [LinearOrder α] → α → α → Prop) (n : Number)
    (x : Double) : Native relation (.number n) (.number x) ↔
      ∃ a b, n.toDouble.value? = some a ∧ x.value? = some b ∧ relation _ a b := by
  simp only [Native, Number.hasValue_iff, exists_and_left, exists_eq_left]

theorem cmp_coe (m n : Int) :
    cmp ((m : WithTop Int) : WithBot (WithTop Int)) ((n : WithTop Int) : WithBot (WithTop Int)) =
      compare m n := by
  rw [← cmp_eq_compare]
  simp only [cmp, cmpUsing, WithBot.coe_lt_coe, WithTop.coe_lt_coe]

/-- Numbers compare as their values do. -/
theorem Double.compare?_of_value? {x y : Double} {a b : WithBot (WithTop Int)}
    (hx : x.value? = some a) (hy : y.value? = some b) : x.compare? y = some (cmp a b) := by
  cases x with
  | nan => simp [value?] at hx
  | infinity negative =>
    cases y with
    | nan => simp [value?] at hy
    | infinity negative' =>
      cases negative <;> cases negative' <;> simp only [value?, Option.some.injEq] at hx hy <;>
        subst hx <;> subst hy <;> rfl
    | finite y =>
      obtain rfl := Option.some.inj hy
      cases negative <;> obtain rfl := Option.some.inj hx
      · exact congrArg some ((cmp_eq_gt_iff _ _).2 (WithBot.coe_lt_coe.2 (WithTop.coe_lt_top _))).symm
      · exact congrArg some ((cmp_eq_lt_iff _ _).2 (WithBot.bot_lt_coe _)).symm
  | finite x =>
    obtain rfl := Option.some.inj hx
    cases y with
    | nan => simp [value?] at hy
    | infinity negative =>
      cases negative <;> obtain rfl := Option.some.inj hy
      · exact congrArg some ((cmp_eq_lt_iff _ _).2 (WithBot.coe_lt_coe.2 (WithTop.coe_lt_top _))).symm
      · exact congrArg some ((cmp_eq_gt_iff _ _).2 (WithBot.bot_lt_coe _)).symm
    | finite y =>
      obtain rfl := Option.some.inj hy
      rw [cmp_coe]
      rfl

theorem Double.compare?_of_value?_eq_none {x y : Double}
    (h : x.value? = none ∨ y.value? = none) : x.compare? y = none := by
  rcases h with h | h
  · cases x with
    | nan => rfl
    | infinity negative => cases negative <;> simp [value?] at h
    | finite => simp [value?] at h
  · cases y with
    | nan => cases x <;> rfl
    | infinity negative => cases negative <;> simp [value?] at h
    | finite => simp [value?] at h

theorem compareText_eq_cmp (s t : String) : compareText s t = cmp s t := by
  rw [compareText]
  rcases lt_trichotomy s t with h | rfl | h
  · rw [if_pos h, (cmp_eq_lt_iff _ _).2 h]
  · rw [if_neg (lt_irrefl s), if_pos rfl, cmp_self_eq_eq]
  · rw [if_neg (lt_asymm h), if_neg (ne_of_gt h), (cmp_eq_gt_iff _ _).2 h]

theorem compareBool_eq_cmp (a b : Bool) : compareBool a b = cmp a b := by
  cases a <;> cases b <;> rfl

/-- Two sides that are compared stand for elements of one ordered type and compare as these do; two
sides that are not are in no relation. -/
theorem compareWith?_spec (value : Json) (literal : Literal) :
    (∃ (α : Type) (_ : LinearOrder α) (a b : α), value.compareWith? literal = some (cmp a b) ∧
      ∀ relation, Native relation value literal ↔ relation α a b) ∨
    value.compareWith? literal = none ∧ ∀ relation, ¬ Native relation value literal := by
  fun_cases Json.compareWith? value literal with
  | case1 n x =>
    cases ha : n.toDouble.value? with
    | none =>
      exact .inr ⟨Double.compare?_of_value?_eq_none (.inl ha), fun _ => by simp [native_number_iff, ha]⟩
    | some a =>
      cases hb : x.value? with
      | none =>
        exact .inr ⟨Double.compare?_of_value?_eq_none (.inr hb),
          fun _ => by simp [native_number_iff, hb]⟩
      | some b =>
        exact .inl ⟨_, _, a, b, Double.compare?_of_value? ha hb,
          fun _ => by simp [native_number_iff, ha, hb]⟩
  | case2 s t =>
    exact .inl ⟨_, _, s, t, congrArg some (compareText_eq_cmp s t), fun _ => Iff.rfl⟩
  | case3 a b =>
    exact .inl ⟨_, _, a, b, congrArg some (compareBool_eq_cmp a b), fun _ => Iff.rfl⟩
  | case4 _ _ hnumber htext hbool =>
    refine .inr ⟨rfl, fun relation h => ?_⟩
    unfold Native at h
    split at h
    · exact hnumber _ _ rfl rfl
    · exact htext _ _ rfl rfl
    · exact hbool _ _ rfl rfl
    · exact h

/-- A comparison comes out as it does in the ordered type. -/
theorem compareWith?_eq_some_iff (value : Json) (literal : Literal) (order : Ordering) :
    value.compareWith? literal = some order ↔
      Native (fun _ _ a b => cmp a b = order) value literal := by
  rcases compareWith?_spec value literal with ⟨_, _, a, b, hcompare, hnative⟩ | ⟨hcompare, hnative⟩
  · rw [hcompare, hnative, Option.some.injEq]
  · simp [hcompare, hnative]

theorem native_or (value : Json) (literal : Literal)
    (first second : (α : Type) → [LinearOrder α] → α → α → Prop) :
    Native (fun α _ a b => first α a b ∨ second α a b) value literal ↔
      Native first value literal ∨ Native second value literal := by
  rcases compareWith?_spec value literal with ⟨_, _, a, b, -, hnative⟩ | ⟨-, hnative⟩
  · simp only [hnative]
  · simp [hnative]

theorem native_le_iff (value : Json) (literal : Literal) :
    Native (fun _ _ a b => a ≤ b) value literal ↔
      Native (fun _ _ a b => a < b) value literal ∨ Native (fun _ _ a b => a = b) value literal := by
  simp only [le_iff_lt_or_eq]
  exact native_or value literal _ _

theorem native_ge_iff (value : Json) (literal : Literal) :
    Native (fun _ _ a b => b ≤ a) value literal ↔
      Native (fun _ _ a b => b < a) value literal ∨ Native (fun _ _ a b => a = b) value literal := by
  simp only [le_iff_lt_or_eq']
  exact native_or value literal _ _

/-! ## The meaning of a rule -/

/-- The kind that the first descriptor with a name declares; text if there is none. -/
def declaredKind (name : String) : List Field → FieldKind
  | [] => .text
  | field :: fields => if field.name = name then field.kind else declaredKind name fields

/-- A field that is absent, null or the empty text. -/
def Missing (value : Option Json) : Prop :=
  value = none ∨ value = some .null ∨ value = some (.string "")

/-- A literal that is null or the empty text. -/
def Literal.Blank (literal : Literal) : Prop := literal = .null ∨ literal = .text ""

/-- What an operator says of a missing value. -/
def Operator.HoldsOfMissing (literal : Literal) : Operator → Prop
  | .equal => literal.Blank
  | .notEqual => ¬ literal.Blank
  | .doesNotContain => True
  | _ => False

/-- The relation holds between the text that is searched for and the text that is searched. -/
def Shown (relation : List Char → List Char → Prop) (value : Json) (literal : Literal) : Prop :=
  ∃ needle text, literal.Shows needle ∧ value.Shows text ∧ relation needle text

theorem shown_iff (relation : List Char → List Char → Prop) (value : Json) (literal : Literal) :
    Shown relation value literal ↔ relation literal.displayChars value.displayChars := by
  simp only [Shown, Literal.shows_iff, Json.shows_iff, exists_and_left, exists_eq_left]

/-- What an operator says of a value that is present. -/
def Operator.HoldsOf (value : Json) (literal : Literal) : Operator → Prop
  | .equal => Native (fun _ _ a b => a = b) value literal
  | .notEqual => ¬ Native (fun _ _ a b => a = b) value literal
  | .less => Native (fun _ _ a b => a < b) value literal
  | .greater => Native (fun _ _ a b => b < a) value literal
  | .atMost => Native (fun _ _ a b => a ≤ b) value literal
  | .atLeast => Native (fun _ _ a b => b ≤ a) value literal
  | .contains => Shown (· <:+: ·) value literal
  | .beginsWith => Shown (· <+: ·) value literal
  | .endsWith => Shown (· <:+ ·) value literal
  | .doesNotContain => ¬ Shown (· <:+: ·) value literal
  | .unknown _ => True

/-- The record, seen through its fields, is as the rule wants it. -/
def Rule.Holds (catalog : Catalog) (view : FieldView) (rule : Rule) : Prop :=
  ∃ literal, Coerces (declaredKind rule.field catalog.fields) rule.value literal ∧
    (Missing (view rule.field) ∧ rule.operator.HoldsOfMissing literal ∨
      ¬ Missing (view rule.field) ∧
        ∃ value, view rule.field = some value ∧ rule.operator.HoldsOf value literal)

theorem kindOf_eq_declaredKind (catalog : Catalog) (name : String) :
    catalog.kindOf name = declaredKind name catalog.fields := by
  obtain ⟨fields⟩ := catalog
  simp only [Catalog.kindOf, Catalog.find?]
  induction fields with
  | nil => rfl
  | cons field fields ih =>
    by_cases h : field.name = name
    · simp [declaredKind, h]
    · simpa [declaredKind, h] using ih

/-- The rule value is what coercion makes of it. -/
theorem Rule.holds_iff (catalog : Catalog) (view : FieldView) (rule : Rule) :
    rule.Holds catalog view ↔
      let literal := Literal.coerce (catalog.kindOf rule.field) rule.value
      Missing (view rule.field) ∧ rule.operator.HoldsOfMissing literal ∨
        ¬ Missing (view rule.field) ∧
          ∃ value, view rule.field = some value ∧ rule.operator.HoldsOf value literal := by
  simp only [Holds, coerces_iff, exists_eq_left, kindOf_eq_declaredKind]

theorem Json.isMissing_iff (value : Json) : value.isMissing = true ↔ Missing (some value) := by
  cases value <;> simp [Json.isMissing, Missing]

theorem Literal.isAbsent_iff (literal : Literal) : literal.isAbsent = true ↔ literal.Blank := by
  cases literal <;> simp [Literal.isAbsent, Literal.Blank]

theorem hasPart_iff (needle text : List Char) : hasPart needle text = true ↔ needle <:+: text := by
  induction text with
  | nil => simp [hasPart]
  | cons c text ih => simp [hasPart, ih, List.infix_cons_iff]

namespace Test

theorem passesMissing_iff (test : Test) :
    test.passesMissing = true ↔ test.operator.HoldsOfMissing test.literal := by
  cases h : test.operator <;>
    simp [passesMissing, h, Operator.HoldsOfMissing, ← Literal.isAbsent_iff]

theorem passesPresent_iff (test : Test) (value : Json)
    (hneedle : test.needle = test.literal.displayChars) :
    test.passesPresent value = true ↔ test.operator.HoldsOf value test.literal := by
  simp only [passesPresent, hneedle]
  cases test.operator with
  | equal => simp [Operator.HoldsOf, compareWith?_eq_some_iff, cmp_eq_eq_iff]
  | notEqual => simp [Operator.HoldsOf, compareWith?_eq_some_iff, cmp_eq_eq_iff]
  | less => simp [Operator.HoldsOf, compareWith?_eq_some_iff, cmp_eq_lt_iff]
  | greater => simp [Operator.HoldsOf, compareWith?_eq_some_iff, cmp_eq_gt_iff]
  | atMost =>
    simp [Operator.HoldsOf, compareWith?_eq_some_iff, cmp_eq_lt_iff, cmp_eq_eq_iff, native_le_iff]
  | atLeast =>
    simp [Operator.HoldsOf, compareWith?_eq_some_iff, cmp_eq_gt_iff, cmp_eq_eq_iff, native_ge_iff]
  | contains => rw [Operator.HoldsOf, shown_iff, hasPart_iff]
  | beginsWith => rw [Operator.HoldsOf, shown_iff, List.isPrefixOf_iff_prefix]
  | endsWith => rw [Operator.HoldsOf, shown_iff, List.isSuffixOf_iff_suffix]
  | doesNotContain => simp [Operator.HoldsOf, shown_iff, ← hasPart_iff]
  | unknown _ => simp [Operator.HoldsOf]

/-- A compiled rule decides the meaning of the rule. -/
theorem passes_compile_iff (catalog : Catalog) (view : FieldView) (rule : Rule) :
    (rule.compile catalog).passes (view rule.field) = true ↔ rule.Holds catalog view := by
  have hmissing := (rule.compile catalog).passesMissing_iff
  have hpresent (value : Json) := (rule.compile catalog).passesPresent_iff value rfl
  simp only [Rule.compile] at hmissing hpresent ⊢
  simp only [Rule.holds_iff, passes]
  cases hview : view rule.field with
  | none => simp [hmissing, Missing]
  | some value =>
    simp only [Option.some.injEq, exists_eq_left', ← Json.isMissing_iff]
    cases value.isMissing with
    | true => simp [hmissing]
    | false => simp [hpresent]

end Test

/-! ## The meaning of a tree -/

/-- A rule holds as it says. A group holds if all its children do, or, if its combinator is `or`,
if some child does. -/
def Query.Holds (catalog : Catalog) (view : FieldView) : Query → Prop
  | .rule r => r.Holds catalog view
  | .group .or children => ∃ child, ∃ _ : child ∈ children, child.Holds catalog view
  | .group _ children => ∀ child ∈ children, child.Holds catalog view

namespace Predicate

variable {view : FieldView} {parts : List Predicate}

theorem acceptsAll_iff : acceptsAll view parts = true ↔ ∀ part ∈ parts, part.accepts view = true := by
  induction parts with
  | nil => simp [acceptsAll]
  | cons part parts ih => simp [acceptsAll, ih]

theorem acceptsAny_iff : acceptsAny view parts = true ↔ ∃ part ∈ parts, part.accepts view = true := by
  induction parts with
  | nil => simp [acceptsAny]
  | cons part parts ih => simp [acceptsAny, ih]

end Predicate

namespace Query

theorem compileAll_eq_map (catalog : Catalog) (children : List Query) :
    compileAll catalog children = children.map (compile catalog) := by
  induction children with
  | nil => rfl
  | cons child children ih => simp [compileAll, ih]

theorem accepts_compile_or (catalog : Catalog) (view : FieldView) (children : List Query) :
    ((group .or children).compile catalog).accepts view = true ↔
      ∃ child ∈ children, (child.compile catalog).accepts view = true := by
  simp [compile, combine, Predicate.accepts, Predicate.acceptsAny_iff, compileAll_eq_map]

theorem accepts_compile_of_ne_or {combinator : Combinator} (h : combinator ≠ .or)
    (catalog : Catalog) (view : FieldView) (children : List Query) :
    ((group combinator children).compile catalog).accepts view = true ↔
      ∀ child ∈ children, (child.compile catalog).accepts view = true := by
  cases combinator with
  | or => exact absurd rfl h
  | _ => simp [compile, combine, Predicate.accepts, Predicate.acceptsAll_iff, compileAll_eq_map]

/-- A group goes by the answers of its children alone. -/
theorem accepts_compile_group (combinator : Combinator) (catalog : Catalog) (view : FieldView)
    (children : List Query) :
    ((group combinator children).compile catalog).accepts view =
      let answers := children.map fun child => (child.compile catalog).accepts view
      if combinator = .or then answers.any id else answers.all id := by
  rw [Bool.eq_iff_iff]
  by_cases hor : combinator = .or
  · subst hor
    rw [accepts_compile_or]
    simp
  · rw [accepts_compile_of_ne_or hor]
    simp [hor]

/-- A compiled tree accepts a record exactly if the tree holds of it. -/
theorem accepts_compile_iff (catalog : Catalog) (view : FieldView) :
    ∀ query : Query, (query.compile catalog).accepts view = true ↔ query.Holds catalog view
  | .rule r => by
    simp only [compile, Predicate.accepts, Holds]
    exact Test.passes_compile_iff catalog view r
  | .group combinator children => by
    have ih : ∀ child ∈ children,
        ((child.compile catalog).accepts view = true ↔ child.Holds catalog view) :=
      fun child _ => accepts_compile_iff catalog view child
    by_cases hor : combinator = .or
    · subst hor
      rw [accepts_compile_or, Holds]
      exact exists_congr fun child => ⟨fun h => ⟨h.1, (ih child h.1).1 h.2⟩,
        fun ⟨hmem, h⟩ => ⟨hmem, (ih child hmem).2 h⟩⟩
    · rw [accepts_compile_of_ne_or hor, Holds]
      · exact forall₂_congr ih
      · exact hor

end Query

end RecordQuery
