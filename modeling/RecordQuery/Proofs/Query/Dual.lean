/-
RecordQuery.Proofs.Query.Dual — the other half of the records.

The dual of a tree swaps `and` with `or` in every group and each operator with
its opposite in every rule. It keeps exactly the records that the tree does not
keep. That has to hold at the leaves for missing values as well as for values
that are present, whatever the two sides are: where nothing can be compared
neither side is equal, so `!=` holds; and a needle is found or it is not. Groups
then follow by the laws of De Morgan, the empty ones included.

Main statements:
* `Test.passes_opposite` — a rule and its opposite on any value;
* `Query.accepts_compile_dual` — a tree and its dual split all records.
-/
import RecordQuery.Dataset.Basic
import RecordQuery.Proofs.Keyed
import RecordQuery.Proofs.Meaning

namespace RecordQuery

/-! ## Duals -/

namespace Operator

/-- The operator that says the contrary, for the four that have one. -/
def opposite : Operator → Operator
  | .equal => .notEqual
  | .notEqual => .equal
  | .contains => .doesNotContain
  | .doesNotContain => .contains
  | operator => operator

/-- There is an operator that says the contrary. -/
def HasOpposite (operator : Operator) : Prop :=
  operator ∈ [equal, notEqual, contains, doesNotContain]

end Operator

/-- `and` and `or` in each other's place. -/
def Combinator.opposite : Combinator → Combinator
  | .and => .or
  | .or => .and
  | combinator => combinator

/-- The rule with the opposite operator. -/
def Rule.opposite (rule : Rule) : Rule := { rule with operator := rule.operator.opposite }

/-- The test with the opposite operator. -/
def Test.opposite (test : Test) : Test := { test with operator := test.operator.opposite }

namespace Query

mutual

/-- The tree with the opposite of every operator and combinator in its place. -/
def dual : Query → Query
  | .rule r => .rule r.opposite
  | .group combinator children => .group combinator.opposite (dualAll children)

/-- The duals of several trees. -/
def dualAll : List Query → List Query
  | [] => []
  | child :: children => child.dual :: dualAll children

end

/-- All groups are conjunctions and disjunctions, and all operators have an opposite. -/
def HasDual : Query → Prop
  | .rule r => r.operator.HasOpposite
  | .group combinator children => combinator.isKnown ∧ ∀ child ∈ children, child.HasDual

theorem dualAll_eq_map (children : List Query) : dualAll children = children.map dual := by
  induction children with
  | nil => rfl
  | cons child children ih => simp [dualAll, ih]

end Query

/-! ## Rules -/

namespace Test

theorem passesMissing_opposite {test : Test} (h : test.operator.HasOpposite) :
    test.opposite.passesMissing = !test.passesMissing := by
  obtain ⟨field, operator, literal, needle⟩ := test
  simp only [Operator.HasOpposite, List.mem_cons, List.not_mem_nil, or_false] at h
  rcases h with rfl | rfl | rfl | rfl
  · rfl
  · exact (Bool.not_not _).symm
  · rfl
  · rfl

theorem passesPresent_opposite {test : Test} (h : test.operator.HasOpposite) (value : Json) :
    test.opposite.passesPresent value = !test.passesPresent value := by
  obtain ⟨field, operator, literal, needle⟩ := test
  simp only [Operator.HasOpposite, List.mem_cons, List.not_mem_nil, or_false] at h
  rcases h with rfl | rfl | rfl | rfl
  · rfl
  · exact (Bool.not_not _).symm
  · rfl
  · exact (Bool.not_not _).symm

/-- On any value, there or missing, a test and its opposite come out differently. -/
theorem passes_opposite {test : Test} (h : test.operator.HasOpposite) (value : Option Json) :
    test.opposite.passes value = !test.passes value := by
  cases value with
  | none => exact passesMissing_opposite h
  | some value =>
    simp only [passes]
    split
    · exact passesMissing_opposite h
    · exact passesPresent_opposite h value

end Test

/-- The opposite of a rule is compiled to the opposite of its test: the value is coerced alike. -/
theorem Rule.compile_opposite (catalog : Catalog) (rule : Rule) :
    rule.opposite.compile catalog = (rule.compile catalog).opposite := rfl

/-! ## Trees -/

namespace Query

variable {query : Query}

/-- A tree is accepted exactly if its dual is not. -/
theorem accepts_dual (catalog : Catalog) (view : FieldView) (h : query.HasDual) :
    (query.dual.compile catalog).accepts view = true ↔
      ¬ (query.compile catalog).accepts view = true := by
  induction query using Query.induction with
  | rule r =>
    rw [HasDual] at h
    have hpasses : (r.compile catalog).opposite.passes (view r.field) =
        !(r.compile catalog).passes (view r.field) := Test.passes_opposite h _
    rw [dual, compile, compile, Rule.compile_opposite, Predicate.accepts, Predicate.accepts]
    change (r.compile catalog).opposite.passes (view r.field) = true ↔
      ¬ (r.compile catalog).passes (view r.field) = true
    rw [hpasses]
    simp
  | group combinator children ih =>
    rw [HasDual] at h
    have hchildren := fun child hchild => ih child hchild (h.2 child hchild)
    rw [dual, dualAll_eq_map]
    cases combinator with
    | and =>
      rw [Combinator.opposite, accepts_compile_or, accepts_compile_of_ne_or (by simp)]
      simp only [List.mem_map, exists_exists_and_eq_and, not_forall, exists_prop]
      exact exists_congr fun child => and_congr_right fun hchild => hchildren child hchild
    | or =>
      rw [Combinator.opposite, accepts_compile_or, accepts_compile_of_ne_or (by simp)]
      simp only [List.forall_mem_map, not_exists, not_and]
      exact forall₂_congr hchildren
    | unknown name => exact absurd h.1 Bool.false_ne_true

/-- Of a tree and its dual exactly one accepts a record. So each record of a list is kept by one of
the two and by one only. -/
theorem accepts_compile_dual (h : query.HasDual) (catalog : Catalog) :
    (∀ view, (query.dual.compile catalog).accepts view =
      !(query.compile catalog).accepts view) ∧
    ∀ records : List Record,
      ((query.compile catalog).select records ++ (query.dual.compile catalog).select records).Perm
          records ∧
        ((query.compile catalog).select records).Disjoint
          ((query.dual.compile catalog).select records) := by
  have hnot : ∀ view, (query.dual.compile catalog).accepts view =
      !(query.compile catalog).accepts view := fun view => by
    rw [Bool.eq_iff_iff, accepts_dual catalog view h]
    simp
  refine ⟨hnot, fun records => ⟨?_, fun record hkept hleft => ?_⟩⟩
  · simp only [Predicate.select, hnot]
    exact List.filter_append_perm _ records
  · have hkept := (List.mem_filter.1 hkept).2
    have hleft := (List.mem_filter.1 hleft).2
    simp [hnot, hkept] at hleft

/-- A tree with an empty group, with a number that is none and with values that may be missing. -/
def unevenQuery : Query :=
  .group .or [.rule ⟨"score", .equal, .string "many"⟩, .group .or [],
    .group .and [.rule ⟨"name", .doesNotContain, .array [.string "n", .null]⟩,
      .rule ⟨"score", .notEqual, .null⟩]]

/-- The catalog in which the score is a number. -/
def scoreCatalog : Catalog := ⟨[⟨"score", none, .number, none⟩]⟩

/-- A record whose score is missing and whose name is a list, and one without fields. -/
def unevenRecords : List Record :=
  [⟨"a", 0, ⟨[("name", .array [.string "Ann", .null]), ("score", .string "")], by decide⟩⟩,
    ⟨"b", 1, .empty⟩]

theorem accepts_compile_dual_uneven :
    unevenQuery.HasDual ∧
      (unevenQuery.dual.compile scoreCatalog).accepts (fun _ => none) =
        !(unevenQuery.compile scoreCatalog).accepts (fun _ => none) ∧
      ((unevenQuery.compile scoreCatalog).select unevenRecords ++
        (unevenQuery.dual.compile scoreCatalog).select unevenRecords).Perm unevenRecords ∧
      ((unevenQuery.compile scoreCatalog).select unevenRecords).Disjoint
        ((unevenQuery.dual.compile scoreCatalog).select unevenRecords) ∧
      (unevenQuery.compile scoreCatalog).select unevenRecords = unevenRecords.drop 1 := by
  have hdual : unevenQuery.HasDual := by
    simp [unevenQuery, HasDual, Operator.HasOpposite, Combinator.isKnown]
  obtain ⟨haccepts, hselect⟩ := accepts_compile_dual hdual scoreCatalog
  obtain ⟨hperm, hdisjoint⟩ := hselect unevenRecords
  exact ⟨hdual, haccepts _, hperm, hdisjoint, by cbv⟩

end Query

end RecordQuery
