/-
RecordQuery.Report.Explanation — how a query will be understood.

An explanation shows the query as an expression and, for each rule, the kind of
its field, whether the field is in the catalog, a suggestion if it is not, and
whether the operator is supported. It also says why the strict mode would
refuse the query, if it would.

Main definitions:
* `RuleNote`, `Explanation`, `explain`;
* `Explanation.toJson`, `Explanation.table`.
-/
import RecordQuery.Predicate
import RecordQuery.Text.Columns
import RecordQuery.Text.Blank

namespace RecordQuery

/-- How one rule will be understood. -/
structure RuleNote where
  field : String
  operator : String
  kind : FieldKind
  inCatalog : Bool
  knownOperator : Bool
  suggestion : Option String
  deriving DecidableEq

/-- How a query will be understood. -/
structure Explanation where
  expression : List Char
  ruleCount : Nat
  rules : List RuleNote
  strictError : Option String
  deriving DecidableEq

/-- How one rule will be understood under a catalog. -/
def Rule.note (catalog : Catalog) (rule : Rule) : RuleNote :=
  ⟨rule.field, rule.operator.name, catalog.kindOf rule.field, (catalog.find? rule.field).isSome,
    rule.operator.isKnown, catalog.suggest? rule.field⟩

/-- How a query will be understood under a catalog. -/
def explain (catalog : Catalog) (query : Query) : Explanation where
  expression := query.expressionChars
  ruleCount := query.ruleCount
  rules := query.rules.map (Rule.note catalog)
  strictError :=
    match query.compileWith catalog true with
    | .ok _ => none
    | .error e => some e.message

/-! ## JSON -/

/-- A note as an object. -/
def RuleNote.toJson (note : RuleNote) : Json :=
  .object ([("field", .string note.field), ("operator", .string note.operator),
    ("type", .string note.kind.name), ("inCatalog", .bool note.inCatalog),
    ("knownOperator", .bool note.knownOperator)]
    ++ Catalog.optionalMember "suggestion" note.suggestion)

/-- An explanation as an object. -/
def Explanation.toJson (explanation : Explanation) : Json :=
  .object ([("expression", .string (String.ofList explanation.expression)),
    ("ruleCount", .ofNat explanation.ruleCount),
    ("rules", .array (explanation.rules.map RuleNote.toJson))]
    ++ Catalog.optionalMember "strictError" explanation.strictError)

/-! ## Table -/

/-- What there is to say about a rule. -/
def RuleNote.remarks (note : RuleNote) : List (List Char) :=
  (if note.inCatalog then []
    else match note.suggestion with
      | some name => ["not in catalog (did you mean '".toList ++ name.toList ++ "'?)".toList]
      | none => ["not in catalog".toList])
  ++ if note.knownOperator then [] else ["unknown operator, always matches".toList]

/-- One line of the table of rules before it is trimmed. -/
def ruleColumns (field operator kind remarks : List Char) : List Char :=
  padTo 20 field ++ ' ' :: (padTo 16 operator ++ ' ' :: (padTo 8 kind ++ ' ' :: remarks))

/-- The line of a rule. -/
def RuleNote.lineChars (note : RuleNote) : List Char :=
  trimEnd (ruleColumns note.field.toList note.operator.toList note.kind.name.toList
    ([';', ' '].intercalate note.remarks)) ++ ['\n']

/-- The table of the rules, or a word that there are none. -/
def rulesChars (colors : Bool) (rules : List RuleNote) : List Char :=
  if rules.isEmpty then "\nNo rules: every record matches.\n".toList
  else
    let header := ruleColumns "Field".toList "Operator".toList "Type".toList "Notes".toList
    '\n' :: (paint colors .faint header ++ '\n' :: rules.flatMap RuleNote.lineChars)

/-- The warning that the strict mode would refuse the query. -/
def strictErrorChars (colors : Bool) : Option String → List Char
  | none => []
  | some message =>
    '\n' :: (paint colors .warning
      ("Strict mode would reject this query: ".toList ++ message.toList) ++ ['\n'])

/-- The characters of an explanation. -/
def Explanation.tableChars (colors : Bool) (explanation : Explanation) : List Char :=
  paint colors .title "Expression".toList ++ '\n' :: ' ' :: ' ' ::
    (explanation.expression ++ '\n' ::
      (rulesChars colors explanation.rules ++ strictErrorChars colors explanation.strictError))

/-- An explanation as a table. -/
def Explanation.table (colors : Bool) (explanation : Explanation) : String :=
  String.ofList (explanation.tableChars colors)

end RecordQuery
