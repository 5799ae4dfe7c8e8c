/-
RecordQuery.Query.Basic — query trees.

A rule compares one field with a value; a group combines rules and groups. An
operator or combinator that is not supported is kept by its name, so a tree
says what was written.

Main definitions:
* `Operator`, `Combinator`, `Rule`, `Query`;
* decidable equality of trees;
* `Query.rules` — the rules in the order in which they are written;
* `Query.toJson`, `Query.expression`.
-/
import RecordQuery.Json.Printer

namespace RecordQuery

/-- How a field is compared with the value of a rule. -/
inductive Operator where
  | equal
  | notEqual
  | less
  | greater
  | atMost
  | atLeast
  | contains
  | beginsWith
  | endsWith
  | doesNotContain
  | unknown (name : String)
  deriving DecidableEq, Inhabited

namespace Operator

/-- The name of an operator. -/
def name : Operator → String
  | .equal => "="
  | .notEqual => "!="
  | .less => "<"
  | .greater => ">"
  | .atMost => "<="
  | .atLeast => ">="
  | .contains => "contains"
  | .beginsWith => "beginsWith"
  | .endsWith => "endsWith"
  | .doesNotContain => "doesNotContain"
  | .unknown name => name

/-- The operators that are supported. -/
def supported : List Operator :=
  [.equal, .notEqual, .less, .greater, .atMost, .atLeast, .contains, .beginsWith, .endsWith,
    .doesNotContain]

/-- The operator with a name, letter for letter. -/
def ofName (name : String) : Operator :=
  (supported.find? fun operator => operator.name = name).getD (.unknown name)

/-- The operator is supported. -/
def isKnown : Operator → Bool
  | .unknown _ => false
  | _ => true

end Operator

/-- How a group combines its children. -/
inductive Combinator where
  | and
  | or
  | unknown (name : String)
  deriving DecidableEq, Inhabited

namespace Combinator

/-- The name of a combinator. -/
def name : Combinator → String
  | .and => "and"
  | .or => "or"
  | .unknown name => name

/-- The combinator with a name, where ASCII letters may be large or small. -/
def ofName (name : String) : Combinator :=
  let letters := name.toList.map Char.toLower
  if letters = ['a', 'n', 'd'] then .and
  else if letters = ['o', 'r'] then .or
  else .unknown name

/-- The combinator is supported. -/
def isKnown : Combinator → Bool
  | .unknown _ => false
  | _ => true

end Combinator

/-- One comparison. The value is kept as it was written. -/
structure Rule where
  field : String
  operator : Operator
  value : Json
  deriving DecidableEq, Inhabited

/-- A query tree. -/
inductive Query where
  | rule (rule : Rule)
  | group (combinator : Combinator) (children : List Query)
  deriving Inhabited

namespace Query

/-! ## Equality -/

mutual

/-- Equality of trees is decided node by node. -/
def decideEq : (x y : Query) → Decidable (x = y)
  | .rule a, .rule b => decidable_of_iff (a = b) (by simp)
  | .group c xs, .group d ys =>
    match decEq c d, decideEqAll xs ys with
    | isTrue h, isTrue h' => isTrue (by rw [h, h'])
    | isFalse h, _ => isFalse (by simp [h])
    | _, isFalse h => isFalse (by simp [h])
  | .rule _, .group _ _ | .group _ _, .rule _ => isFalse (by simp)

/-- Equality of lists of trees. -/
def decideEqAll : (xs ys : List Query) → Decidable (xs = ys)
  | [], [] => isTrue rfl
  | x :: xs, y :: ys =>
    match decideEq x y, decideEqAll xs ys with
    | isTrue h, isTrue h' => isTrue (by rw [h, h'])
    | isFalse h, _ => isFalse (by simp [h])
    | _, isFalse h => isFalse (by simp [h])
  | [], _ :: _ | _ :: _, [] => isFalse (by simp)

end

instance : DecidableEq Query := decideEq

/-- What holds of every rule, and of every group if it holds of its children, holds of every tree. -/
@[elab_as_elim]
theorem induction {motive : Query → Prop} (rule : ∀ r, motive (.rule r))
    (group : ∀ combinator children, (∀ child ∈ children, motive child) →
      motive (.group combinator children)) : ∀ query, motive query
  | .rule r => rule r
  | .group combinator children =>
    group combinator children fun child _ => induction rule group child

/-- The group without children that every record passes. -/
def matchAll : Query := .group .and []

/-! ## Rules -/

mutual

/-- The rules of a tree in the order in which they are written. -/
def rules : Query → List Rule
  | .rule r => [r]
  | .group _ children => rulesOfAll children

/-- The rules of several trees, one tree after the other. -/
def rulesOfAll : List Query → List Rule
  | [] => []
  | child :: children => child.rules ++ rulesOfAll children

end

@[simp] theorem rules_rule (r : Rule) : (rule r).rules = [r] := rfl

theorem mem_rulesOfAll {r : Rule} {children : List Query} :
    r ∈ rulesOfAll children ↔ ∃ child ∈ children, r ∈ child.rules := by
  induction children with
  | nil => simp [rulesOfAll]
  | cons child children ih => simp [rulesOfAll, ih]

/-- The rules of a group are those of its children. -/
@[simp] theorem mem_rules_group {r : Rule} {combinator : Combinator} {children : List Query} :
    r ∈ (group combinator children).rules ↔ ∃ child ∈ children, r ∈ child.rules :=
  mem_rulesOfAll

mutual

/-- The number of rules in a tree. -/
def ruleCount : Query → Nat
  | .rule _ => 1
  | .group _ children => ruleCountOfAll children

/-- The number of rules in several trees. -/
def ruleCountOfAll : List Query → Nat
  | [] => 0
  | child :: children => child.ruleCount + ruleCountOfAll children

end

theorem ruleCountOfAll_eq_length {children : List Query}
    (h : ∀ child ∈ children, child.ruleCount = child.rules.length) :
    ruleCountOfAll children = (rulesOfAll children).length := by
  induction children with
  | nil => rfl
  | cons child children ih =>
    rw [List.forall_mem_cons] at h
    rw [ruleCountOfAll, rulesOfAll, List.length_append, h.1, ih h.2]

/-- As many rules are counted as are listed. -/
theorem ruleCount_eq_length (query : Query) : query.ruleCount = query.rules.length := by
  induction query using induction with
  | rule r => rfl
  | group combinator children ih => exact ruleCountOfAll_eq_length ih

end Query

/-! ## Text forms -/

/-- A rule as an object. -/
def Rule.toJson (rule : Rule) : Json :=
  .object [("field", .string rule.field), ("operator", .string rule.operator.name),
    ("value", rule.value)]

namespace Query

mutual

/-- A tree as nested objects. -/
def toJson : Query → Json
  | .rule r => r.toJson
  | .group combinator children =>
    .object [("combinator", .string combinator.name), ("rules", .array (toJsonAll children))]

/-- Several trees as a list of objects. -/
def toJsonAll : List Query → List Json
  | [] => []
  | child :: children => child.toJson :: toJsonAll children

end

end Query

theorem Query.mem_toJsonAll {children : List Query} {value : Json} :
    value ∈ toJsonAll children ↔ ∃ child ∈ children, child.toJson = value := by
  induction children with
  | nil => simp [toJsonAll]
  | cons child children ih => simp [toJsonAll, ih, eq_comm]

/-- A rule as it is shown: field, operator and value with a space between them. -/
def Rule.expressionChars (rule : Rule) : List Char :=
  rule.field.toList ++ ' ' :: (rule.operator.name.toList
    ++ ' ' :: Json.chars .compact 0 rule.value)

/-- A rule as it is shown. -/
def Rule.expression (rule : Rule) : String := String.ofList rule.expressionChars

namespace Query

/-- A group without children is shown as the constant that it stands for. -/
def emptyGroupChars : Combinator → List Char
  | .and => "true".toList
  | .or => "false".toList
  | .unknown name => name.toList ++ ['(', ')']

mutual

/-- A tree as it is shown: groups in parentheses, their combinator between the children. -/
def expressionChars : Query → List Char
  | .rule r => r.expressionChars
  | .group combinator [] => emptyGroupChars combinator
  | .group combinator (child :: children) =>
    '(' :: (child.expressionChars ++ (joinedChars combinator children ++ [')']))

/-- Further children of a group, each with the combinator in front. -/
def joinedChars (combinator : Combinator) : List Query → List Char
  | [] => []
  | child :: children =>
    ' ' :: (combinator.name.toList ++ ' ' :: (child.expressionChars
      ++ joinedChars combinator children))

end

/-- A tree as it is shown. -/
def expression (query : Query) : String := String.ofList query.expressionChars

end Query

end RecordQuery
