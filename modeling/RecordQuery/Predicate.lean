/-
RecordQuery.Predicate — query trees, compiled against a catalog.

Compiling fixes the kind of every field and coerces every rule value once. A
predicate then asks a record for the fields of its rules and for nothing else.
A field that is absent, null or the empty text is missing, and the operator
alone decides. In the strict mode a tree with an unsupported name is refused;
otherwise an unsupported operator lets every present value pass, and an
unsupported combinator means `and`.

Main definitions:
* `Test`, `Predicate`, `Predicate.accepts`;
* `Query.compile`, `Query.firstUnknown?`, `Query.compileWith`.
-/
import RecordQuery.Literal
import RecordQuery.Query.Basic
import RecordQuery.Query.Error

namespace RecordQuery

/-- A compiled rule. The needle is the display text of the literal. -/
structure Test where
  field : String
  operator : Operator
  literal : Literal
  needle : List Char
  deriving DecidableEq

/-- A compiled tree. -/
inductive Predicate where
  | test (test : Test)
  | all (parts : List Predicate)
  | any (parts : List Predicate)

/-- What a record shows of itself: the value of a field, if there is one. -/
abbrev FieldView := String → Option Json

/-! ## Matching -/

/-- Some part of the text is the needle. -/
def hasPart (needle : List Char) : List Char → Bool
  | [] => needle.isEmpty
  | c :: cs => needle.isPrefixOf (c :: cs) || hasPart needle cs

namespace Test

/-- The test of a missing value. -/
def passesMissing (test : Test) : Bool :=
  match test.operator with
  | .equal => test.literal.isAbsent
  | .notEqual => !test.literal.isAbsent
  | .doesNotContain => true
  | _ => false

/-- The test of a value that is present. -/
def passesPresent (test : Test) (value : Json) : Bool :=
  let order := value.compareWith? test.literal
  match test.operator with
  | .equal => order == some .eq
  | .notEqual => order != some .eq
  | .less => order == some .lt
  | .greater => order == some .gt
  | .atMost => order == some .lt || order == some .eq
  | .atLeast => order == some .gt || order == some .eq
  | .contains => hasPart test.needle value.displayChars
  | .beginsWith => test.needle.isPrefixOf value.displayChars
  | .endsWith => test.needle.isSuffixOf value.displayChars
  | .doesNotContain => !hasPart test.needle value.displayChars
  | .unknown _ => true

/-- The test of a field that may be missing. -/
def passes (test : Test) (value : Option Json) : Bool :=
  match value with
  | some value => if value.isMissing then test.passesMissing else test.passesPresent value
  | none => test.passesMissing

end Test

namespace Predicate

mutual

/-- The record passes. -/
def accepts (view : FieldView) : Predicate → Bool
  | .test t => t.passes (view t.field)
  | .all parts => acceptsAll view parts
  | .any parts => acceptsAny view parts

/-- The record passes every part. -/
def acceptsAll (view : FieldView) : List Predicate → Bool
  | [] => true
  | part :: parts => part.accepts view && acceptsAll view parts

/-- The record passes some part. -/
def acceptsAny (view : FieldView) : List Predicate → Bool
  | [] => false
  | part :: parts => part.accepts view || acceptsAny view parts

end

end Predicate

/-! ## Compiling -/

/-- A compiled rule. -/
def Rule.compile (catalog : Catalog) (rule : Rule) : Test :=
  let literal := Literal.coerce (catalog.kindOf rule.field) rule.value
  ⟨rule.field, rule.operator, literal, literal.displayChars⟩

namespace Query

/-- The predicate of a group. -/
def combine : Combinator → List Predicate → Predicate
  | .or, parts => .any parts
  | _, parts => .all parts

mutual

/-- The predicate of a tree. -/
def compile (catalog : Catalog) : Query → Predicate
  | .rule r => .test (r.compile catalog)
  | .group combinator children => combine combinator (compileAll catalog children)

/-- The predicates of several trees. -/
def compileAll (catalog : Catalog) : List Query → List Predicate
  | [] => []
  | child :: children => child.compile catalog :: compileAll catalog children

end

mutual

/-- The first name that is not supported: a combinator stands before the children of its group. -/
def firstUnknown? : Query → Option QueryError
  | .rule r =>
    match r.operator with
    | .unknown name => some (.unknownOperator name)
    | _ => none
  | .group (.unknown name) _ => some (.unknownCombinator name)
  | .group _ children => firstUnknownIn? children

/-- The first name in several trees that is not supported. -/
def firstUnknownIn? : List Query → Option QueryError
  | [] => none
  | child :: children => child.firstUnknown?.or (firstUnknownIn? children)

end

/-- The predicate of a tree; in the strict mode only if every name is supported. -/
def compileWith (catalog : Catalog) (strict : Bool) (query : Query) :
    Except QueryError Predicate :=
  match strict, query.firstUnknown? with
  | true, some e => .error e
  | _, _ => .ok (query.compile catalog)

end Query

end RecordQuery
