/-
RecordQuery.Proofs.Query.Expression — the shown expression determines the query.

A tree is shown as an infix expression. Nothing in it is quoted but the strings
in the values of rules, an empty group is shown as one of the words `true` and
`false`, which may also be fields, and a group of one child does not show its
combinator. Yet of trees with supported names and plain fields (`Query.IsPlain`)
no two have one expression, up to what is not shown (`Query.settled`): an
operator follows a field, but the end, a closing parenthesis or a combinator
follows an empty group, and no operator begins like a combinator.

The induction is on one of the two trees, with any text behind it with which a
node may end (`NodeEnd`).

Main definitions:
* `Query.IsPlain`, `Query.settled`;
* `NodeEnd`.

Main statements:
* `Rule.expressionChars_append_inj` — one rule;
* `Query.expressionChars_append_inj` — a tree, wherever it stands;
* `Query.settled_eq_of_expression_eq` — equal expressions, and what they filter.
-/
import RecordQuery.Proofs.Json.Unambiguous
import RecordQuery.Proofs.Meaning
import RecordQuery.Proofs.Query.Grammar

namespace RecordQuery

open Json (NumberEnd)

variable {r s : List Char}

/-! ## Trees with plain names -/

/-- A letter of ASCII, a digit or an underscore. -/
def isNameChar (c : Char) : Bool := c.isAlphanum || c == '_'

/-- No name goes on with a space. -/
theorem isNameChar_space (t : List Char) : ∀ c ∈ (' ' :: t).head?, isNameChar c = false := by
  intro c hc
  obtain rfl : ' ' = c := by simpa using hc
  decide

/-- The operator is supported and the field is a plain name. -/
structure Rule.IsPlain (rule : Rule) : Prop where
  isKnown : rule.operator.isKnown
  field_ne : rule.field ≠ ""
  field : ∀ c ∈ rule.field.toList, isNameChar c = true

namespace Query

/-- All operators and combinators of the tree are supported, and all fields are plain names. -/
def IsPlain : Query → Prop
  | .rule r => r.IsPlain
  | .group combinator children => combinator.isKnown ∧ ∀ child ∈ children, child.IsPlain

theorem isPlain_rule (r : Rule) : (rule r).IsPlain ↔ r.IsPlain := by rw [IsPlain]

theorem isPlain_group (combinator : Combinator) (children : List Query) :
    (group combinator children).IsPlain ↔
      combinator.isKnown ∧ ∀ child ∈ children, child.IsPlain := by rw [IsPlain]

/-- The combinator of a group with the given children, as far as it matters: one child is not
combined with anything. -/
def settledCombinator (combinator : Combinator) : List Query → Combinator
  | [_] => .and
  | _ => combinator

mutual

/-- The tree with `and` as the combinator of every group of one child. -/
def settled : Query → Query
  | .rule r => .rule r
  | .group combinator children =>
    .group (settledCombinator combinator children) (settledAll children)

/-- The trees with `and` as the combinator of every group of one child. -/
def settledAll : List Query → List Query
  | [] => []
  | child :: children => child.settled :: settledAll children

end

theorem settledAll_eq_map (children : List Query) : settledAll children = children.map settled := by
  induction children with
  | nil => rfl
  | cons child children ih => rw [settledAll, ih, List.map_cons]

/-- The combinator of one child does not matter to what is accepted. -/
theorem accepts_settled (catalog : Catalog) (view : FieldView) (query : Query) :
    (query.settled.compile catalog).accepts view = (query.compile catalog).accepts view := by
  induction query using Query.induction with
  | rule r => rfl
  | group combinator children ih =>
    have hanswers : (children.map settled).map (fun child => (child.compile catalog).accepts view) =
        children.map fun child => (child.compile catalog).accepts view := by
      rw [List.map_map]
      exact List.map_congr_left ih
    rw [settled, settledAll_eq_map, accepts_compile_group, accepts_compile_group, hanswers]
    match children with
    | [] => rfl
    | [child] => cases combinator <;> simp [settledCombinator]
    | _ :: _ :: _ => rfl

end Query

/-! ## Names -/

theorem Operator.ofName_name {operator : Operator} (h : operator.isKnown) :
    ofName operator.name = operator := by
  cases operator with
  | unknown name => cases h
  | _ => rfl

/-- Supported operators have different names. -/
theorem Operator.name_inj {a b : Operator} (ha : a.isKnown) (hb : b.isKnown)
    (h : a.name = b.name) : a = b := by
  rw [← ofName_name ha, ← ofName_name hb, h]

/-- Supported combinators have different names. -/
theorem Combinator.name_inj {a b : Combinator} (ha : a.isKnown) (hb : b.isKnown)
    (h : a.name = b.name) : a = b := by
  cases a <;> cases b <;> simp_all [name, isKnown]

/-- No operator has the name of a combinator. -/
theorem Operator.name_ne {operator : Operator} {combinator : Combinator} (ho : operator.isKnown)
    (hc : combinator.isKnown) : operator.name ≠ combinator.name := by
  cases operator <;> cases combinator <;> simp_all [name, Combinator.name, isKnown,
    Combinator.isKnown]

/-- The name of an operator has no space. -/
theorem Operator.ne_space_of_mem {operator : Operator} (h : operator.isKnown) :
    ∀ c ∈ operator.name.toList, (c != ' ') = true := by
  cases operator with
  | unknown name => cases h
  | _ => simp [name]

theorem Combinator.ne_space_of_mem {combinator : Combinator} (h : combinator.isKnown) :
    ∀ c ∈ combinator.name.toList, (c != ' ') = true := by
  cases combinator with
  | unknown name => cases h
  | _ => simp [name]

/-- Two texts without spaces are equal if a space follows them both. -/
theorem append_space_inj {cs ds : List Char} (hcs : ∀ c ∈ cs, (c != ' ') = true)
    (hds : ∀ c ∈ ds, (c != ' ') = true) (h : cs ++ ' ' :: r = ds ++ ' ' :: s) :
    cs = ds ∧ r = s :=
  (append_inj_of_class hcs hds (by simp) (by simp) h).imp id List.tail_eq_of_cons_eq

/-! ## Where a node ends -/

/-- What follows a node: nothing, the end of its group, or a combinator. -/
inductive NodeEnd : List Char → Prop
  | nil : NodeEnd []
  | close (rest : List Char) : NodeEnd (')' :: rest)
  | combinator {combinator : Combinator} (known : combinator.isKnown) (rest : List Char) :
    NodeEnd (' ' :: (combinator.name.toList ++ ' ' :: rest))

/-- No number goes on behind a node. -/
theorem NodeEnd.numberEnd (h : NodeEnd r) : NumberEnd r := by
  cases h with
  | nil => exact Json.numberEnd_nil
  | close rest => simp [NumberEnd]
  | combinator known rest => simp [NumberEnd]

/-- No name goes on behind a node. -/
theorem NodeEnd.isNameChar (h : NodeEnd r) : ∀ c ∈ r.head?, isNameChar c = false := by
  cases h with
  | nil => simp
  | close rest => simp; decide
  | combinator known rest => exact isNameChar_space _

/-- What follows a node does not begin with a space and an operator. -/
theorem NodeEnd.ne_operator {operator : Operator} (ho : operator.isKnown)
    (h : NodeEnd (' ' :: (operator.name.toList ++ ' ' :: r))) : False := by
  generalize htext : ' ' :: (operator.name.toList ++ ' ' :: r) = text at h
  cases h with
  | nil => cases htext
  | close rest => cases htext
  | @combinator combinator known rest =>
    have hnames := append_space_inj (Operator.ne_space_of_mem ho)
      (Combinator.ne_space_of_mem known) (List.tail_eq_of_cons_eq htext)
    exact Operator.name_ne ho known (String.toList_inj.1 hnames.1)

/-! ## Rules -/

namespace Rule

theorem expressionChars_append (rule : Rule) (r : List Char) :
    rule.expressionChars ++ r = rule.field.toList ++ ' ' :: (rule.operator.name.toList ++
      ' ' :: (Json.chars .compact 0 rule.value ++ r)) := by
  simp [expressionChars]

/-- The text of a rule determines the rule. -/
theorem expressionChars_append_inj {a b : Rule} (ha : a.IsPlain) (hb : b.IsPlain)
    (hr : NodeEnd r) (hs : NodeEnd s) (h : a.expressionChars ++ r = b.expressionChars ++ s) :
    a = b ∧ r = s := by
  rw [expressionChars_append, expressionChars_append] at h
  obtain ⟨hfield, hbehind⟩ :=
    append_inj_of_class ha.field hb.field (isNameChar_space _) (isNameChar_space _) h
  obtain ⟨hname, hvalues⟩ := append_space_inj (Operator.ne_space_of_mem ha.isKnown)
    (Operator.ne_space_of_mem hb.isKnown) (List.tail_eq_of_cons_eq hbehind)
  obtain ⟨hvalue, hrs⟩ :=
    Json.chars_append_inj a.value 0 b.value r s hr.numberEnd hs.numberEnd hvalues
  have hoperator := Operator.name_inj ha.isKnown hb.isKnown (String.toList_inj.1 hname)
  obtain ⟨field, operator, value⟩ := a
  obtain ⟨field', operator', value'⟩ := b
  obtain rfl : field = field' := String.toList_inj.1 hfield
  obtain rfl : operator = operator' := hoperator
  obtain rfl : value = value' := hvalue
  exact ⟨rfl, hrs⟩

/-- The text of a rule begins with a character of its field. -/
theorem exists_nameChar {rule : Rule} (h : rule.IsPlain) :
    ∃ c more, rule.expressionChars = c :: more ∧ isNameChar c = true := by
  have hne : rule.field.toList ≠ [] := by
    simpa using h.field_ne
  obtain ⟨c, more, hcs⟩ := List.exists_cons_of_ne_nil hne
  refine ⟨c, more ++ ' ' :: (rule.operator.name.toList ++ ' ' :: Json.chars .compact 0 rule.value),
    ?_, h.field c (by rw [hcs]; exact List.mem_cons_self)⟩
  rw [expressionChars, hcs]
  rfl

end Rule

/-! ## Groups -/

namespace Query

variable {combinator other : Combinator}

theorem isNameChar_of_mem_emptyGroupChars (hc : combinator.isKnown) :
    ∀ c ∈ emptyGroupChars combinator, isNameChar c = true := by
  cases combinator with
  | unknown name => cases hc
  | _ =>
    simp [emptyGroupChars]
    decide

/-- The word for an empty group tells its combinator. -/
theorem emptyGroupChars_append_inj (hc : combinator.isKnown) (ho : other.isKnown)
    (h : emptyGroupChars combinator ++ r = emptyGroupChars other ++ s) :
    combinator = other ∧ r = s := by
  cases combinator <;> cases other <;> simp_all [emptyGroupChars, Combinator.isKnown]

/-- An empty group is not taken for a rule, whatever the field is: no operator follows it. -/
theorem emptyGroup_ne_rule {rule : Rule} (hc : combinator.isKnown) (hrule : rule.IsPlain)
    (hr : NodeEnd r) : emptyGroupChars combinator ++ r ≠ rule.expressionChars ++ s := by
  intro h
  rw [Rule.expressionChars_append] at h
  obtain ⟨-, hbehind⟩ := append_inj_of_class (isNameChar_of_mem_emptyGroupChars hc) hrule.field
    hr.isNameChar (isNameChar_space _) h
  rw [hbehind] at hr
  exact hr.ne_operator hrule.isKnown

/-- Nor is an empty group taken for one with children. -/
theorem emptyGroup_ne_group (hc : combinator.isKnown) (child : Query) (children : List Query) :
    emptyGroupChars combinator ++ r ≠
      (group other (child :: children)).expressionChars ++ s := by
  rw [expressionChars]
  cases combinator with
  | unknown name => cases hc
  | _ => simp [emptyGroupChars]

/-- No group is taken for a rule. -/
theorem group_ne_rule {rule : Rule} {children : List Query} (hc : combinator.isKnown)
    (hrule : rule.IsPlain) (hr : NodeEnd r) :
    (group combinator children).expressionChars ++ r ≠ rule.expressionChars ++ s := by
  cases children with
  | nil => exact emptyGroup_ne_rule hc hrule hr
  | cons child children =>
    intro h
    obtain ⟨c, more, hchars, hname⟩ := Rule.exists_nameChar hrule
    rw [hchars, expressionChars] at h
    obtain rfl : '(' = c := (List.cons.inj h).1
    revert hname
    decide

/-- What stands between the children of a group. -/
def between (combinator : Combinator) : List Char := ' ' :: (combinator.name.toList ++ [' '])

theorem joinedChars_eq (combinator : Combinator) (children : List Query) :
    joinedChars combinator children = separated (between combinator) expressionChars children := by
  induction children with
  | nil => rfl
  | cons child children ih =>
    rw [joinedChars, ih]
    simp [separated, between]

/-- The text of a group with children. -/
theorem expressionChars_group (combinator : Combinator) (child : Query) (children : List Query)
    (r : List Char) :
    (group combinator (child :: children)).expressionChars ++ r =
      '(' :: (child.expressionChars ++
        (separated (between combinator) expressionChars children ++ ')' :: r)) := by
  rw [expressionChars, joinedChars_eq]
  simp

theorem nodeEnd_between (hc : combinator.isKnown) (t : List Char) :
    NodeEnd (between combinator ++ t) := by
  have h := NodeEnd.combinator hc t
  simpa [between] using h

/-- Further children tell the combinator that stands in front of them. -/
theorem combinator_eq_of_separated {child child' : Query} {children children' : List Query}
    (hc : combinator.isKnown) (ho : other.isKnown)
    (h : separated (between combinator) expressionChars (child :: children) ++ r =
      separated (between other) expressionChars (child' :: children') ++ s) : combinator = other := by
  rw [separated_cons, separated_cons] at h
  simp only [between, List.cons_append, List.append_assoc, List.nil_append] at h
  obtain ⟨hname, -⟩ := append_space_inj (Combinator.ne_space_of_mem hc)
    (Combinator.ne_space_of_mem ho) (List.tail_eq_of_cons_eq h)
  exact Combinator.name_inj hc ho (String.toList_inj.1 hname)

/-- The texts of the children of two groups tell the children and, unless there is only one, the
combinator. -/
theorem settled_group_eq {child child' : Query} {children children' : List Query}
    (hc : combinator.isKnown) (ho : other.isKnown)
    (hchild : Unambiguous NodeEnd IsPlain expressionChars settled child)
    (hchildren : ∀ x ∈ children, Unambiguous NodeEnd IsPlain expressionChars settled x)
    (hplain : ∀ x ∈ child' :: children', x.IsPlain)
    (h : (group combinator (child :: children)).expressionChars ++ r =
      (group other (child' :: children')).expressionChars ++ s) :
    (group combinator (child :: children)).settled = (group other (child' :: children')).settled ∧
      r = s := by
  rw [expressionChars_group, expressionChars_group] at h
  obtain ⟨hfirst, hbehind⟩ := hchild child' (hplain child' List.mem_cons_self) _ _
    (ends_separated (nodeEnd_between hc) .close children r)
    (ends_separated (nodeEnd_between ho) .close children' s) (List.tail_eq_of_cons_eq h)
  have hclose : ∀ (c : Combinator) (t u : List Char), between c ++ t ≠ ')' :: u := by
    intro c t u
    simp [between]
  cases children with
  | nil =>
    cases children' with
    | nil =>
      refine ⟨?_, List.tail_eq_of_cons_eq hbehind⟩
      simp only [settled, settledCombinator, settledAll, hfirst]
    | cons y ys =>
      rw [separated_cons] at hbehind
      exact absurd hbehind.symm (hclose _ _ _)
  | cons x xs =>
    cases children' with
    | nil =>
      rw [separated_cons] at hbehind
      exact absurd hbehind (hclose _ _ _)
    | cons y ys =>
      obtain rfl := combinator_eq_of_separated hc ho hbehind
      obtain ⟨hothers, hrs⟩ := separated_inj (nodeEnd_between hc) .close (hclose combinator)
        hchildren (fun z hz => hplain z (List.mem_cons_of_mem _ hz)) hbehind
      refine ⟨?_, hrs⟩
      have hall : settledAll (child :: x :: xs) = settledAll (child' :: y :: ys) := by
        rw [settledAll_eq_map, settledAll_eq_map]
        exact congrArg₂ List.cons hfirst hothers
      simp only [settled, settledCombinator, hall]

/-! ## Trees -/

/-- The text of a tree determines the tree, up to the combinators that are not shown, and where it
ends. The induction is on the first of the two trees; the second is of the same shape. -/
theorem expressionChars_append_inj (query : Query) : query.IsPlain →
    Unambiguous NodeEnd IsPlain expressionChars settled query := by
  induction query using Query.induction with
  | rule a =>
    intro ha q hq r s hr hs h
    rw [isPlain_rule] at ha
    cases q with
    | rule b =>
      rw [isPlain_rule] at hq
      obtain ⟨rfl, hrs⟩ := Rule.expressionChars_append_inj ha hq hr hs h
      exact ⟨rfl, hrs⟩
    | group other children =>
      rw [isPlain_group] at hq
      exact absurd h.symm (group_ne_rule hq.1 ha hs)
  | group combinator children ih =>
    intro hplain q hq r s hr hs h
    rw [isPlain_group] at hplain
    have hchildren : ∀ x ∈ children, Unambiguous NodeEnd IsPlain expressionChars settled x :=
      fun x hx => ih x hx (hplain.2 x hx)
    cases q with
    | rule b =>
      rw [isPlain_rule] at hq
      exact absurd h (group_ne_rule hplain.1 hq hr)
    | group other children' =>
      rw [isPlain_group] at hq
      match children, children' with
      | [], [] =>
        obtain ⟨rfl, hrs⟩ := emptyGroupChars_append_inj hplain.1 hq.1 h
        exact ⟨rfl, hrs⟩
      | [], child' :: others => exact absurd h (emptyGroup_ne_group hplain.1 child' others)
      | child :: others, [] => exact absurd h.symm (emptyGroup_ne_group hq.1 child others)
      | child :: others, child' :: others' =>
        exact settled_group_eq hplain.1 hq.1 (hchildren child List.mem_cons_self)
          (fun x hx => hchildren x (List.mem_cons_of_mem _ hx)) hq.2 h

/-- Two trees that are shown alike are equal up to the combinators of groups with one child, so they
are compiled to predicates that accept the same records, whatever the catalog. -/
theorem settled_eq_of_expression_eq {first second : Query} (hfirst : first.IsPlain)
    (hsecond : second.IsPlain) (h : first.expression = second.expression) :
    first.settled = second.settled ∧
      ∀ catalog view, (first.compile catalog).accepts view = (second.compile catalog).accepts view := by
  have hchars : first.expressionChars ++ [] = second.expressionChars ++ [] := by
    rw [String.ofList_inj.1 h]
  obtain ⟨hsettled, -⟩ :=
    expressionChars_append_inj first hfirst second hsecond [] [] .nil .nil hchars
  refine ⟨hsettled, ?_⟩
  intro catalog view
  rw [← accepts_settled catalog view first, hsettled, accepts_settled]

/-- A tree with fields that are words of the language, a value that looks like the end of a group,
and a group of one child. -/
def wordQuery (combinator : Combinator) : Query :=
  .group .or [.rule ⟨"true", .notEqual, .string ") and (true"⟩, .group .and [],
    .group combinator [.rule ⟨"and", .contains, .array [.null, .object []]⟩]]

theorem settled_eq_of_expression_eq_word :
    wordQuery .and ≠ wordQuery .or ∧ (wordQuery .and).IsPlain ∧ (wordQuery .or).IsPlain ∧
      (wordQuery .and).expression = (wordQuery .or).expression ∧
      (wordQuery .and).settled = (wordQuery .or).settled ∧
      ∀ catalog view, ((wordQuery .and).compile catalog).accepts view =
        ((wordQuery .or).compile catalog).accepts view := by
  have hne : wordQuery .and ≠ wordQuery .or := by decide
  have hname : ∀ field ∈ ["true", "and"], field ≠ "" ∧ ∀ c ∈ field.toList, isNameChar c = true := by
    simp
    decide
  have hplain : ∀ combinator : Combinator, combinator.isKnown → (wordQuery combinator).IsPlain := by
    intro combinator hc
    have htrue := hname "true" (by simp)
    have hand := hname "and" (by simp)
    simp only [wordQuery, isPlain_group, isPlain_rule, List.forall_mem_cons]
    exact ⟨rfl, ⟨rfl, htrue.1, htrue.2⟩, ⟨rfl, List.forall_mem_nil _⟩,
      ⟨hc, ⟨rfl, hand.1, hand.2⟩, List.forall_mem_nil _⟩, List.forall_mem_nil _⟩
  have hshown : (wordQuery .and).expression = (wordQuery .or).expression := rfl
  exact ⟨hne, hplain .and rfl, hplain .or rfl, hshown,
    settled_eq_of_expression_eq (hplain .and rfl) (hplain .or rfl) hshown⟩

end Query

end RecordQuery
