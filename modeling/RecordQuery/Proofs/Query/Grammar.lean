/-
RecordQuery.Proofs.Query.Grammar — which values are trees.

The grammar of trees is an inductive predicate on values (`Query.IsNode`): a
group has a list of nodes under `rules` and perhaps a string as combinator, and a
rule has no `rules` and two strings. The reader accepts the values of the grammar
and no others. What it keeps of a value is its normal form (`Query.normal`): all
other keys are dropped, what may be missing is filled in, and `and` and `or` are
written in small letters. Writing a tree gives the normal form of the value from
which it was read, and reading this form gives the tree again.

Main statements:
* `Query.ofJsonAt_toJson` — a tree whose names are canonical is read from its own form;
* `Query.keeps_of_ofJsonAt`, `Query.exists_ofJsonAt` — what is read, and that it is read;
* `Query.ofJson_spec` — the reader, the grammar and the normal form.
-/
import Mathlib.Data.List.Forall2
import RecordQuery.Proofs.Except
import RecordQuery.Query.Reader

namespace RecordQuery

/-! ## Values -/

/-- What stands in a list under a key of an object is smaller than the object. -/
theorem Json.sizeOf_lt_of_lookup {key : String} {members : List (String × Json)}
    {items : List Json} {item : Json} (h : members.lookup key = some (.array items))
    (hitem : item ∈ items) : sizeOf item < sizeOf (Json.object members) := by
  obtain ⟨front, back, rfl, -⟩ := List.lookup_eq_some_iff.1 h
  have hmember := List.sizeOf_lt_of_mem
    (show (key, Json.array items) ∈ front ++ (key, Json.array items) :: back by simp)
  have hinside := List.sizeOf_lt_of_mem hitem
  simp only [Prod.mk.sizeOf_spec, Json.array.sizeOf_spec] at hmember
  simp only [Json.object.sizeOf_spec]
  omega

namespace Query

/-- The values that are read as trees. -/
inductive IsNode : Json → Prop
  | group {members : List (String × Json)} {items : List Json}
      (rules : members.lookup "rules" = some (.array items))
      (combinator : members.lookup "combinator" = none ∨
        ∃ name, members.lookup "combinator" = some (.string name))
      (children : ∀ item ∈ items, IsNode item) : IsNode (.object members)
  | rule {members : List (String × Json)} {field operator : String}
      (noRules : members.lookup "rules" = none)
      (field : members.lookup "field" = some (.string field))
      (operator : members.lookup "operator" = some (.string operator)) : IsNode (.object members)

/-- The name of a combinator, `and` and `or` in small letters. -/
def normalName (name : String) : String :=
  if name.toLower = "and" ∨ name.toLower = "or" then name.toLower else name

/-- The combinator of a group in its normal form; `and` if it has none. -/
def normalCombinator : Option Json → Json
  | none => .string "and"
  | some (.string name) => .string (normalName name)
  | some value => value

/-- The normal form of a value: of each node only what its kind of node is read for, with what is
missing filled in. -/
def normal : Json → Json
  | .object members =>
    match _h : members.lookup "rules" with
    | some (.array items) =>
      .object [("combinator", normalCombinator (members.lookup "combinator")),
        ("rules", .array (items.attach.map fun item => normal item.1))]
    | _ =>
      .object [("field", (members.lookup "field").getD .null),
        ("operator", (members.lookup "operator").getD .null),
        ("value", (members.lookup "value").getD .null)]
  | value => value
termination_by value => sizeOf value
decreasing_by exact Json.sizeOf_lt_of_lookup _h item.2

/-- The rules among the nodes of a value, in the order in which they are written. -/
def ruleObjects : Json → List Json
  | .object members =>
    match _h : members.lookup "rules" with
    | some (.array items) => items.attach.flatMap fun item => ruleObjects item.1
    | _ => [.object members]
  | _ => []
termination_by value => sizeOf value
decreasing_by exact Json.sizeOf_lt_of_lookup _h item.2

section Equations

variable {members : List (String × Json)} {items : List Json}

theorem normal_group (h : members.lookup "rules" = some (.array items)) :
    normal (.object members) =
      .object [("combinator", normalCombinator (members.lookup "combinator")),
        ("rules", .array (items.map normal))] := by
  rw [normal]
  split
  · rename_i found hfound
    rw [h] at hfound
    cases hfound
    simp
  · rename_i hnot
    exact absurd h (hnot items)

theorem normal_rule (h : members.lookup "rules" = none) :
    normal (.object members) =
      .object [("field", (members.lookup "field").getD .null),
        ("operator", (members.lookup "operator").getD .null),
        ("value", (members.lookup "value").getD .null)] := by
  rw [normal]
  split
  · rename_i hfound
    rw [h] at hfound
    cases hfound
  · rfl

theorem ruleObjects_group (h : members.lookup "rules" = some (.array items)) :
    ruleObjects (.object members) = items.flatMap ruleObjects := by
  rw [ruleObjects]
  split
  · rename_i found hfound
    rw [h] at hfound
    cases hfound
    simp
  · rename_i hnot
    exact absurd h (hnot items)

theorem ruleObjects_rule (h : members.lookup "rules" = none) :
    ruleObjects (.object members) = [.object members] := by
  rw [ruleObjects]
  split
  · rename_i hfound
    rw [h] at hfound
    cases hfound
  · rfl

end Equations

/-- What holds of every value that is no object, and of every object if it holds of the values that
the object lists under `rules`, holds of every value. -/
@[elab_as_elim]
theorem rulesInduction {motive : Json → Prop}
    (object : ∀ members, (∀ items, members.lookup "rules" = some (.array items) →
      ∀ item ∈ items, motive item) → motive (.object members))
    (other : ∀ value, (∀ members, value ≠ .object members) → motive value) : ∀ value, motive value
  | .object members => object members fun _ h item hitem =>
    have _hsize := Json.sizeOf_lt_of_lookup h hitem
    rulesInduction object other item
  | .null => other _ nofun
  | .bool _ => other _ nofun
  | .number _ => other _ nofun
  | .string _ => other _ nofun
  | .array _ => other _ nofun
termination_by value => sizeOf value
decreasing_by exact _hsize

end Query

/-! ## Names -/

/-- An operator is written as it was named. -/
theorem Operator.name_ofName (name : String) : (ofName name).name = name := by
  unfold ofName
  cases hfound : supported.find? fun operator => operator.name = name with
  | none => rfl
  | some operator => simpa using List.find?_some hfound

theorem Combinator.ofName_eq (name : String) :
    ofName name = if name.toLower = "and" then .and
      else if name.toLower = "or" then .or else .unknown name := by
  have hletters (word : String) :
      name.toLower = word ↔ name.toList.map Char.toLower = word.toList := by
    change name.map Char.toLower = word ↔ _
    rw [← String.toList_inj, String.toList_map]
  have hand : name.toLower = "and" ↔ name.toList.map Char.toLower = ['a', 'n', 'd'] :=
    hletters "and"
  have hor : name.toLower = "or" ↔ name.toList.map Char.toLower = ['o', 'r'] := hletters "or"
  simp only [ofName, hand, hor]

/-- A combinator is written as it was named, `and` and `or` in small letters. -/
theorem Combinator.name_ofName (name : String) : (ofName name).name = Query.normalName name := by
  rw [ofName_eq, Query.normalName]
  by_cases hand : name.toLower = "and"
  · simp [hand, Combinator.name]
  by_cases hor : name.toLower = "or"
  · simp [hor, Combinator.name]
  · simp [hand, hor, Combinator.name]

/-- The name that is written stands for the same combinator. -/
theorem Combinator.ofName_name_ofName (name : String) : ofName (ofName name).name = ofName name := by
  rw [ofName_eq name]
  split
  · rfl
  split
  · rfl
  · rename_i hand hor
    rw [Combinator.name, ofName_eq, if_neg hand, if_neg hor]

namespace Query

/-- Every node has the operator or combinator that its name stands for: none that is supported is
kept as unknown. -/
def IsCanonical : Query → Prop
  | .rule r => .ofName r.operator.name = r.operator
  | .group combinator children =>
    .ofName combinator.name = combinator ∧ ∀ child ∈ children, child.IsCanonical

/-! ## Reading -/

variable {place : Place} {members : List (String × Json)} {items : List Json} {index : Nat}

theorem requiredText_eq_ok {key text : String} :
    requiredText place key members = .ok text ↔ members.lookup key = some (.string text) := by
  unfold requiredText
  cases members.lookup key with
  | none => simp
  | some value => cases value <;> simp

theorem readCombinator_eq_ok {combinator : Combinator} :
    readCombinator place members = .ok combinator ↔
      members.lookup "combinator" = none ∧ combinator = .and ∨
        ∃ name, members.lookup "combinator" = some (.string name) ∧
          combinator = .ofName name := by
  unfold readCombinator
  cases members.lookup "combinator" with
  | none => simp [eq_comm]
  | some value => cases value <;> simp [eq_comm]

theorem readRule_eq_ok {rule : Rule} :
    readRule place members = .ok rule ↔
      ∃ field operator, members.lookup "field" = some (.string field) ∧
        members.lookup "operator" = some (.string operator) ∧
          rule = ⟨field, .ofName operator, (members.lookup "value").getD .null⟩ := by
  unfold readRule
  constructor
  · intro h
    obtain ⟨field, hfield, h⟩ := Except.bind_eq_ok.1 h
    obtain ⟨operator, hoperator, h⟩ := Except.bind_eq_ok.1 h
    cases h
    exact ⟨field, operator, requiredText_eq_ok.1 hfield, requiredText_eq_ok.1 hoperator, rfl⟩
  · rintro ⟨field, operator, hfield, hoperator, rfl⟩
    exact Except.bind_eq_ok.2 ⟨field, requiredText_eq_ok.2 hfield,
      Except.bind_eq_ok.2 ⟨operator, requiredText_eq_ok.2 hoperator, rfl⟩⟩

/-- A member under another key is passed over. -/
theorem childrenIn_cons_of_ne {key : String} (h : key ≠ "rules") (value : Json) :
    childrenIn place ((key, value) :: members) = childrenIn place members := by
  cases value <;> simp [childrenIn, h]

/-- The children are those that the list under `rules` holds. -/
theorem childrenIn_of_lookup (h : members.lookup "rules" = some (.array items)) :
    childrenIn place members = childrenOf place 0 items := by
  induction members with
  | nil => cases h
  | cons member members ih =>
    obtain ⟨key, value⟩ := member
    by_cases hkey : key = "rules"
    · subst hkey
      obtain rfl : value = .array items := by simpa using h
      rw [childrenIn, if_pos rfl]
    · rw [List.lookup_cons, beq_eq_false_iff_ne.2 (Ne.symm hkey)] at h
      rw [childrenIn_cons_of_ne hkey, ih h]

/-- Only a list can be read as children. -/
theorem exists_lookup_of_childrenIn {children : List Query}
    (h : childrenIn place members = .ok children) :
    ∃ items, members.lookup "rules" = some (.array items) := by
  induction members with
  | nil => cases h
  | cons member members ih =>
    obtain ⟨key, value⟩ := member
    by_cases hkey : key = "rules"
    · subst hkey
      cases value with
      | array items => exact ⟨items, by simp⟩
      | _ => simp [childrenIn] at h
    · rw [childrenIn_cons_of_ne hkey] at h
      rw [List.lookup_cons, beq_eq_false_iff_ne.2 (Ne.symm hkey)]
      exact ih h

/-- An object with a list under `rules` is read as a group. -/
theorem ofJsonAt_group (h : members.lookup "rules" = some (.array items)) :
    ofJsonAt place (.object members) =
      (readCombinator place members).bind fun combinator =>
        (childrenOf place 0 items).map (.group combinator) := by
  rw [ofJsonAt, h, childrenIn_of_lookup h, if_pos Option.isSome_some]
  cases readCombinator place members <;> rfl

/-- An object without `rules` is read as a rule. -/
theorem ofJsonAt_rule (h : members.lookup "rules" = none) :
    ofJsonAt place (.object members) = (readRule place members).map .rule := by
  rw [ofJsonAt, h, if_neg (by simp)]

/-- An object that is read has a list under `rules`, or has no `rules`. -/
theorem lookup_rules_of_ofJsonAt {query : Query}
    (h : ofJsonAt place (.object members) = .ok query) :
    (∃ items, members.lookup "rules" = some (.array items)) ∨ members.lookup "rules" = none := by
  rw [ofJsonAt] at h
  split at h
  · cases hcombinator : readCombinator place members with
    | error e =>
      rw [hcombinator] at h
      cases h
    | ok combinator =>
      rw [hcombinator] at h
      obtain ⟨children, hchildren, -⟩ := Except.map_eq_ok.1 h
      exact .inl (exists_lookup_of_childrenIn hchildren)
  · rename_i hnone
    exact .inr (Option.not_isSome_iff_eq_none.1 hnone)

theorem childrenOf_cons (item : Json) :
    childrenOf place index (item :: items) =
      (ofJsonAt (place.child index) item).bind fun child =>
        (childrenOf place (index + 1) items).map (child :: ·) := by
  rw [childrenOf]
  cases ofJsonAt (place.child index) item <;> rfl

/-- Children that are read are read one by one, each from its item. -/
theorem forall₂_of_childrenOf {relation : Json → Query → Prop} {children : List Query}
    (h : childrenOf place index items = .ok children)
    (hitems : ∀ item ∈ items, ∀ place child, ofJsonAt place item = .ok child →
      relation item child) : List.Forall₂ relation items children := by
  induction items generalizing index children with
  | nil =>
    cases h
    exact .nil
  | cons item items ih =>
    rw [childrenOf_cons] at h
    obtain ⟨child, hchild, h⟩ := Except.bind_eq_ok.1 h
    obtain ⟨others, hothers, rfl⟩ := Except.map_eq_ok.1 h
    exact .cons (hitems item List.mem_cons_self _ child hchild)
      (ih hothers fun other hother => hitems other (List.mem_cons_of_mem _ hother))

/-- Children are read if each of their items is. -/
theorem exists_childrenOf
    (h : ∀ item ∈ items, ∀ place, ∃ child, ofJsonAt place item = .ok child) (index : Nat) :
    ∃ children, childrenOf place index items = .ok children := by
  induction items generalizing index with
  | nil => exact ⟨[], rfl⟩
  | cons item items ih =>
    obtain ⟨child, hchild⟩ := h item List.mem_cons_self (place.child index)
    obtain ⟨children, hchildren⟩ :=
      ih (fun other hother => h other (List.mem_cons_of_mem _ hother)) (index + 1)
    refine ⟨child :: children, ?_⟩
    rw [childrenOf_cons, hchild]
    exact Except.map_eq_ok.2 ⟨children, hchildren, rfl⟩

/-! ## Reading what was written -/

theorem childrenOf_toJsonAll {children : List Query}
    (h : ∀ child ∈ children, ∀ place, ofJsonAt place child.toJson = .ok child) (index : Nat) :
    childrenOf place index (toJsonAll children) = .ok children := by
  induction children generalizing index with
  | nil => rfl
  | cons child children ih =>
    rw [toJsonAll, childrenOf_cons, h child List.mem_cons_self]
    exact Except.map_eq_ok.2
      ⟨children, ih (fun other hother => h other (List.mem_cons_of_mem _ hother)) _, rfl⟩

/-- A tree whose names are canonical is read from its own form, wherever this stands. -/
theorem ofJsonAt_toJson {query : Query} (h : query.IsCanonical) (place : Place) :
    ofJsonAt place query.toJson = .ok query := by
  induction query using Query.induction generalizing place with
  | rule r =>
    rw [IsCanonical] at h
    rw [toJson, Rule.toJson, ofJsonAt_rule rfl]
    refine Except.map_eq_ok.2 ⟨r, readRule_eq_ok.2 ⟨r.field, r.operator.name, rfl, rfl, ?_⟩, rfl⟩
    rw [h]
    rfl
  | group combinator children ih =>
    rw [IsCanonical] at h
    have hcombinator : ∀ rest, readCombinator place
        (("combinator", .string combinator.name) :: rest) = .ok combinator := fun rest =>
      readCombinator_eq_ok.2 (.inr ⟨combinator.name, rfl, h.1.symm⟩)
    rw [toJson, ofJsonAt_group rfl, hcombinator]
    exact Except.map_eq_ok.2 ⟨children,
      childrenOf_toJsonAll (fun child hchild => ih child hchild (h.2 child hchild)) 0, rfl⟩

/-! ## What is kept of a value -/

/-- The tree is what the reader keeps of the value. -/
structure Keeps (value : Json) (query : Query) : Prop where
  isNode : IsNode value
  isCanonical : query.IsCanonical
  toJson_eq : query.toJson = normal value
  rules_eq : query.rules.map Rule.toJson = (ruleObjects value).map normal

theorem keeps_rule {rule : Rule} (hrules : members.lookup "rules" = none)
    (h : readRule place members = .ok rule) : Keeps (.object members) (.rule rule) := by
  obtain ⟨field, operator, hfield, hoperator, rfl⟩ := readRule_eq_ok.1 h
  have hjson : (Query.rule ⟨field, .ofName operator, (members.lookup "value").getD .null⟩).toJson =
      normal (.object members) := by
    rw [normal_rule hrules, hfield, hoperator, toJson, Rule.toJson, Operator.name_ofName]
    rfl
  refine ⟨.rule hrules hfield hoperator, ?_, hjson, ?_⟩
  · rw [IsCanonical, Operator.name_ofName]
  · rw [ruleObjects_rule hrules, List.map_singleton, ← hjson]
    rfl

theorem toJsonAll_of_forall₂ {children : List Query} (h : List.Forall₂ Keeps items children) :
    toJsonAll children = items.map normal := by
  induction h with
  | nil => rfl
  | cons hchild _ ih => rw [toJsonAll, List.map_cons, hchild.toJson_eq, ih]

theorem rulesOfAll_of_forall₂ {children : List Query} (h : List.Forall₂ Keeps items children) :
    (rulesOfAll children).map Rule.toJson = (items.flatMap ruleObjects).map normal := by
  induction h with
  | nil => rfl
  | cons hchild _ ih =>
    rw [rulesOfAll, List.flatMap_cons, List.map_append, List.map_append, hchild.rules_eq, ih]

theorem keeps_group {combinator : Combinator} {children : List Query}
    (hrules : members.lookup "rules" = some (.array items))
    (hcombinator : readCombinator place members = .ok combinator)
    (hchildren : List.Forall₂ Keeps items children) :
    Keeps (.object members) (.group combinator children) := by
  have hnodes : ∀ item ∈ items, IsNode item :=
    ((List.forall₂_and_left items children).1
      (hchildren.imp fun _ _ hchild => ⟨hchild.isNode, hchild⟩)).1
  have hcanonical : ∀ child ∈ children, child.IsCanonical :=
    ((List.forall₂_and_left children items).1
      (.flip (hchildren.imp fun _ _ hchild => ⟨hchild.isCanonical, hchild⟩))).1
  have hrulesEq : (group combinator children).rules.map Rule.toJson =
      (ruleObjects (.object members)).map normal := by
    rw [rules, ruleObjects_group hrules, rulesOfAll_of_forall₂ hchildren]
  rcases readCombinator_eq_ok.1 hcombinator with ⟨hnone, rfl⟩ | ⟨name, hname, rfl⟩
  · refine ⟨.group hrules (.inl hnone) hnodes, ?_, ?_, hrulesEq⟩
    · rw [IsCanonical]
      exact ⟨rfl, hcanonical⟩
    · rw [normal_group hrules, hnone, toJson, toJsonAll_of_forall₂ hchildren]
      rfl
  · refine ⟨.group hrules (.inr ⟨name, hname⟩) hnodes, ?_, ?_, hrulesEq⟩
    · rw [IsCanonical]
      exact ⟨Combinator.ofName_name_ofName name, hcanonical⟩
    · rw [normal_group hrules, hname, toJson, toJsonAll_of_forall₂ hchildren,
        Combinator.name_ofName]
      rfl

/-- Whatever tree is read, it is what is kept of the value. -/
theorem keeps_of_ofJsonAt (value : Json) : ∀ (place : Place) (query : Query),
    ofJsonAt place value = .ok query → Keeps value query := by
  induction value using rulesInduction with
  | object members ih =>
    intro place query h
    rcases lookup_rules_of_ofJsonAt h with ⟨items, hrules⟩ | hrules
    · rw [ofJsonAt_group hrules] at h
      obtain ⟨combinator, hcombinator, h⟩ := Except.bind_eq_ok.1 h
      obtain ⟨children, hchildren, rfl⟩ := Except.map_eq_ok.1 h
      exact keeps_group hrules hcombinator (forall₂_of_childrenOf hchildren (ih items hrules))
    · rw [ofJsonAt_rule hrules] at h
      obtain ⟨rule, hrule, rfl⟩ := Except.map_eq_ok.1 h
      exact keeps_rule hrules hrule
  | other value hvalue =>
    intro place query h
    cases value with
    | object members => exact absurd rfl (hvalue members)
    | _ => cases h

/-- Every value of the grammar is read, wherever it stands. -/
theorem exists_ofJsonAt {value : Json} (h : IsNode value) (place : Place) :
    ∃ query, ofJsonAt place value = .ok query := by
  induction h generalizing place with
  | @group members items hrules hcombinator _ ih =>
    obtain ⟨combinator, hcombinator⟩ : ∃ combinator,
        readCombinator place members = .ok combinator := by
      rcases hcombinator with hnone | ⟨name, hname⟩
      · exact ⟨.and, readCombinator_eq_ok.2 (.inl ⟨hnone, rfl⟩)⟩
      · exact ⟨.ofName name, readCombinator_eq_ok.2 (.inr ⟨name, hname, rfl⟩)⟩
    obtain ⟨children, hchildren⟩ := exists_childrenOf ih 0
    refine ⟨.group combinator children, ?_⟩
    rw [ofJsonAt_group hrules, hcombinator]
    exact Except.map_eq_ok.2 ⟨children, hchildren, rfl⟩
  | @rule members field operator hrules hfield hoperator =>
    refine ⟨.rule ⟨field, .ofName operator, (members.lookup "value").getD .null⟩, ?_⟩
    rw [ofJsonAt_rule hrules]
    exact Except.map_eq_ok.2
      ⟨_, readRule_eq_ok.2 ⟨field, operator, hfield, hoperator, rfl⟩, rfl⟩

/-- Exactly the values of the grammar are read. What is read is written as the normal form of the
value, from which it is read again, and its rules are those of the value in their order. -/
theorem ofJson_spec (value : Json) :
    ((∃ query, ofJson value = .ok query) ↔ IsNode value) ∧
    ∀ query, ofJson value = .ok query →
      query.toJson = normal value ∧ ofJson query.toJson = .ok query ∧
        query.ruleCount = (ruleObjects value).length ∧
        query.rules.map Rule.toJson = (ruleObjects value).map normal := by
  refine ⟨⟨fun ⟨query, h⟩ => (keeps_of_ofJsonAt value .root query h).isNode,
    fun h => exists_ofJsonAt h .root⟩, fun query h => ?_⟩
  have hkeeps := keeps_of_ofJsonAt value .root query h
  refine ⟨hkeeps.toJson_eq, ofJsonAt_toJson hkeeps.isCanonical .root, ?_, hkeeps.rules_eq⟩
  have hlength := congrArg List.length hkeeps.rules_eq
  rwa [List.length_map, List.length_map, ← ruleCount_eq_length] at hlength

/-- A group as an editor sends it: with keys that mean nothing here, a combinator in large letters, a
rule without value and a group without combinator. -/
def editorValue : Json :=
  .object [("combinator", .string "OR"), ("id", .string "1"),
    ("rules", .array [
      .object [("field", .string "name"), ("id", .string "2"), ("operator", .string "IS")],
      .object [("field", .string "none"), ("rules", .array [])]])]

/-- The tree that is read from it. -/
def editorQuery : Query := .group .or [.rule ⟨"name", .unknown "IS", .null⟩, .group .and []]

theorem ofJson_spec_editor :
    ofJson editorValue = .ok editorQuery ∧ IsNode editorValue ∧
      editorQuery.toJson = normal editorValue ∧ ofJson editorQuery.toJson = .ok editorQuery ∧
      editorQuery.ruleCount = (ruleObjects editorValue).length ∧
      editorQuery.rules.map Rule.toJson = (ruleObjects editorValue).map normal := by
  have hread : ofJson editorValue = .ok editorQuery := rfl
  obtain ⟨haccepts, hkeeps⟩ := ofJson_spec editorValue
  exact ⟨hread, haccepts.1 ⟨_, hread⟩, hkeeps _ hread⟩

end Query

end RecordQuery
