/-
RecordQuery.Proofs.Report.Explanation — what an explanation says about matching.

The table of an explanation makes two statements about records: that every
record matches where the query has no rules, and that a rule with an unknown
operator always matches. It goes by the list of rules alone. The answer of a
query without rules depends on its groups: one that comes down to an empty `or`
matches no record at all. And a rule with an unknown operator matches the
records that have a value for its field, not the others.

Main statements:
* `accepts_compile_of_rules_eq_nil` — without rules the groups decide, and no
  record is asked;
* `accepts_compile_of_unknown` — an unknown operator asks for a value;
* `statements_true_iff` — for which records the two statements are true.
-/
import RecordQuery.Proofs.Meaning
import RecordQuery.Report.Explanation

namespace RecordQuery

/-! ## Trees without rules -/

namespace Query

/-- A tree holds by its groups alone, whatever its rules say of a record. -/
inductive HoldsByGroups : Query → Prop
  | all {combinator : Combinator} {children : List Query} (conjunction : combinator ≠ .or)
      (each : ∀ child ∈ children, HoldsByGroups child) : HoldsByGroups (.group combinator children)
  | any {child : Query} {children : List Query} (mem : child ∈ children)
      (holds : HoldsByGroups child) : HoldsByGroups (.group .or children)

variable {query : Query} {catalog : Catalog} {view : FieldView}

/-- A record cannot change what the groups have settled. -/
theorem accepts_of_holdsByGroups (h : query.HoldsByGroups) (catalog : Catalog) (view : FieldView) :
    (query.compile catalog).accepts view = true := by
  induction h with
  | all conjunction _ ih => exact (accepts_compile_of_ne_or conjunction catalog view _).2 ih
  | any mem _ ih => exact (accepts_compile_or catalog view _).2 ⟨_, mem, ih⟩

/-- Without rules nothing but the groups makes a tree hold. -/
theorem holdsByGroups_of_accepts (query : Query) (hrules : query.rules = [])
    (h : (query.compile catalog).accepts view = true) : query.HoldsByGroups := by
  induction query using Query.induction with
  | rule r => cases hrules
  | group combinator children ih =>
    have hnone : ∀ child ∈ children, child.rules = [] := fun child hchild =>
      List.eq_nil_iff_forall_not_mem.2 fun r hr => by
        have hmem : r ∈ (group combinator children).rules := mem_rules_group.2 ⟨child, hchild, hr⟩
        rw [hrules] at hmem
        cases hmem
    by_cases hor : combinator = .or
    · subst hor
      obtain ⟨child, hchild, haccepts⟩ := (accepts_compile_or catalog view children).1 h
      exact .any hchild (ih child hchild (hnone child hchild) haccepts)
    · have haccepts := (accepts_compile_of_ne_or hor catalog view children).1 h
      exact .all hor fun child hchild =>
        ih child hchild (hnone child hchild) (haccepts child hchild)

/-- A tree without rules accepts every record or none, as its groups say. -/
theorem accepts_compile_of_rules_eq_nil (hrules : query.rules = []) (catalog : Catalog)
    (view : FieldView) : (query.compile catalog).accepts view = true ↔ query.HoldsByGroups :=
  ⟨holdsByGroups_of_accepts query hrules, fun h => accepts_of_holdsByGroups h catalog view⟩

/-- A rule with an unknown operator accepts the records that have a value for its field. -/
theorem accepts_compile_of_unknown {r : Rule} (h : r.operator.isKnown = false) (catalog : Catalog)
    (view : FieldView) :
    ((rule r).compile catalog).accepts view = true ↔ ¬ Missing (view r.field) := by
  obtain ⟨name, hname⟩ : ∃ name, r.operator = .unknown name := by
    cases hoperator : r.operator <;> simp_all [Operator.isKnown]
  rw [accepts_compile_iff, Holds, Rule.holds_iff, hname]
  simp only [Operator.HoldsOfMissing, Operator.HoldsOf]
  cases view r.field with
  | none => simp [Missing]
  | some value => simp

end Query

/-! ## What the table says -/

/-- What stands in the place of the rules where there are none. -/
def noRulesChars : List Char := "\nNo rules: every record matches.\n".toList

/-- What is remarked on a rule with an unknown operator. -/
def alwaysMatchesChars : List Char := "unknown operator, always matches".toList

namespace Explanation

/-- The table says behind the expression that every record matches. -/
def SaysEveryRecord (explanation : Explanation) (colors : Bool) : Prop :=
  ∃ rest, explanation.tableChars colors =
    paint colors .title "Expression".toList ++ '\n' :: ' ' :: ' ' ::
      (explanation.expression ++ '\n' :: (noRulesChars ++ rest))

/-- A table of rules begins with another line: with the header of the table. -/
theorem exists_rulesChars_cons (colors : Bool) (note : RuleNote) (notes : List RuleNote) :
    ∃ c rest, rulesChars colors (note :: notes) = '\n' :: c :: rest ∧ c ≠ 'N' := by
  cases colors with
  | false => exact ⟨'F', _, rfl, by decide⟩
  | true => exact ⟨'\x1b', _, rfl, by decide⟩

/-- The table says so exactly where there are no rules. -/
theorem saysEveryRecord_iff (explanation : Explanation) (colors : Bool) :
    explanation.SaysEveryRecord colors ↔ explanation.rules = [] := by
  constructor
  · rintro ⟨rest, htable⟩
    cases hrules : explanation.rules with
    | nil => rfl
    | cons note notes =>
      obtain ⟨c, more, hchars, hc⟩ := exists_rulesChars_cons colors note notes
      have hsays : noRulesChars = '\n' :: 'N' :: noRulesChars.drop 2 := rfl
      rw [tableChars, hrules, hchars, hsays] at htable
      simp only [List.append_cancel_left_eq, List.cons.injEq, List.cons_append, true_and] at htable
      exact absurd htable.1 hc
  · intro hrules
    refine ⟨strictErrorChars colors explanation.strictError, ?_⟩
    rw [tableChars, hrules]
    rfl

end Explanation

/-- A rule is said to match always exactly if its operator is unknown. -/
theorem RuleNote.alwaysMatches_mem_remarks_iff (note : RuleNote) :
    alwaysMatchesChars ∈ note.remarks ↔ note.knownOperator = false := by
  have hother (rest : List Char) : alwaysMatchesChars ≠ 'n' :: rest := by
    have hfirst : alwaysMatchesChars = 'u' :: alwaysMatchesChars.drop 1 := rfl
    rw [hfirst]
    simp
  rw [remarks, List.mem_append]
  constructor
  · rintro (hmem | hmem)
    · split at hmem
      · cases hmem
      · split at hmem
        · exact absurd (List.mem_singleton.1 hmem) (hother _)
        · exact absurd (List.mem_singleton.1 hmem) (hother _)
    · cases hknown : note.knownOperator with
      | false => rfl
      | true => simp [hknown] at hmem
  · intro hunknown
    rw [hunknown]
    exact .inr (List.mem_singleton.2 rfl)

/-! ## Whether it is true -/

/-- Where the table says that every record matches, the groups of the query alone decide for all
records; a rule that is said to match always accepts the records that have a value for its field. -/
theorem statements_true_iff (query : Query) (catalog : Catalog) (colors : Bool) :
    ((explain catalog query).SaysEveryRecord colors → ∀ view,
      (query.compile catalog).accepts view = true ↔ query.HoldsByGroups) ∧
    ∀ rule ∈ query.rules, alwaysMatchesChars ∈ (rule.note catalog).remarks → ∀ view,
      ((Query.rule rule).compile catalog).accepts view = true ↔ ¬ Missing (view rule.field) := by
  constructor
  · intro hsays view
    have hnotes := ((explain catalog query).saysEveryRecord_iff colors).1 hsays
    exact Query.accepts_compile_of_rules_eq_nil (List.map_eq_nil_iff.1 hnotes) catalog view
  · intro rule _ hremark view
    have hoperator := ((rule.note catalog).alwaysMatches_mem_remarks_iff).1 hremark
    exact Query.accepts_compile_of_unknown hoperator catalog view

/-- A group of no alternatives. -/
def noAlternative : Query := .group .or []

/-- A rule whose operator is not supported. -/
def likeRule : Rule := ⟨"name", .unknown "like", .string "A"⟩

/-- Neither statement is true for all records: a record without fields matches neither the group of no
alternatives, which the table says every record matches, nor the rule that is said to match always. -/
theorem statements_false :
    (explain .empty noAlternative).table false =
        "Expression\n  false\n\nNo rules: every record matches.\n" ∧
      (explain .empty noAlternative).SaysEveryRecord false ∧
      (noAlternative.compile .empty).accepts (fun _ => none) = false ∧
      likeRule ∈ (Query.rule likeRule).rules ∧
      alwaysMatchesChars ∈ (likeRule.note .empty).remarks ∧
      ((Query.rule likeRule).compile .empty).accepts (fun _ => none) = false := by
  refine ⟨rfl, (Explanation.saysEveryRecord_iff _ _).2 rfl, rfl, List.mem_singleton.2 rfl, ?_, rfl⟩
  exact (RuleNote.alwaysMatches_mem_remarks_iff _).2 rfl

end RecordQuery
