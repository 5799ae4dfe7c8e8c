/-
RecordQuery.Proofs.Dependence — what a predicate looks at.

A predicate looks at a catalog for the kinds of its own fields and at a record
for the values of its own fields, and at each value no closer than it must: the
three ways in which a field can be missing are alike to it, and so are two
numbers that are one double, wherever they stand in the value. So two records
that cannot be told apart in this way are accepted alike, under any two catalogs
that give the fields of the query the same kinds.

Whether a number is looked at closer is a matter of every function that takes a
value apart: comparison, and the text by which values are searched, which goes
into lists. Each of them is shown to give for a value what it gives for the value
with all numbers rounded (`Json.rounded`).

Main definitions:
* `Json.rounded` — each number in a value as a double, zero without sign;
* `Source` — what can be asked for its fields;
* `Alike` — two views that a predicate cannot tell apart at a field.

Main statements:
* `Json.displayChars_rounded`, `Json.compareWith?_rounded`;
* `Test.passes_congr` — one rule does not tell such views apart;
* `Query.accepts_compile_congr` — nor does a tree.
-/
import RecordQuery.Dataset.Basic
import RecordQuery.Proofs.Json.Scale
import RecordQuery.Proofs.Keyed
import RecordQuery.Proofs.Meaning

namespace RecordQuery

/-! ## Numbers as doubles -/

/-- The double without the sign of zero. -/
def FiniteDouble.unsignedZero (x : FiniteDouble) : FiniteDouble :=
  if x.magnitude.units = 0 then ⟨false, x.magnitude⟩ else x

/-- The double of a number that JSON text can hold is finite. -/
theorem Number.exists_toDouble (n : Number) : ∃ x, n.toDouble = .finite x := by
  cases n with
  | double x => exact ⟨x, rfl⟩
  | whole n =>
    have hgathered : n.value.natAbs ≤ Json.gatherLimit := by
      have hlower := n.lower
      have hupper := n.upper
      unfold Json.gatherLimit
      omega
    obtain ⟨magnitude, hmagnitude, -⟩ := Json.exists_ofNat?_gathered hgathered
    refine ⟨⟨decide (n.value < 0), magnitude⟩, ?_⟩
    rw [toDouble, Double.ofInt, hmagnitude, Double.ofMagnitude?]

/-- The number as a double, where zero has no sign. -/
def Number.rounded (n : Number) : Number :=
  match n.toDouble with
  | .finite x => .double x.unsignedZero
  | _ => n

theorem Number.toDouble_rounded {n : Number} {x : FiniteDouble} (h : n.toDouble = .finite x) :
    n.rounded.toDouble = .finite x.unsignedZero := by
  rw [rounded, h]
  rfl

theorem FiniteDouble.signedUnits_unsignedZero (x : FiniteDouble) :
    x.unsignedZero.signedUnits = x.signedUnits := by
  unfold unsignedZero
  split
  · rename_i hzero
    simp [signedUnits, hzero]
  · rfl

theorem Double.text_unsignedZero (x : FiniteDouble) :
    (finite x.unsignedZero).text = (finite x).text := by
  unfold FiniteDouble.unsignedZero
  split
  · rename_i hzero
    simp [text, hzero]
  · rfl

/-- Comparing does not look closer at a number than rounding does. -/
theorem Number.compare?_rounded (n : Number) (x : Double) :
    n.rounded.toDouble.compare? x = n.toDouble.compare? x := by
  obtain ⟨y, hy⟩ := n.exists_toDouble
  rw [toDouble_rounded hy, hy]
  cases x with
  | finite x => simp only [Double.compare?, y.signedUnits_unsignedZero]
  | nan => rfl
  | infinity negative => cases negative <;> rfl

/-- Nor does the text of a number. -/
theorem Number.text_rounded (n : Number) : n.rounded.toDouble.text = n.toDouble.text := by
  obtain ⟨x, hx⟩ := n.exists_toDouble
  rw [toDouble_rounded hx, hx, Double.text_unsignedZero]

/-! ## Values with rounded numbers -/

namespace Json

mutual

/-- The value with each number in it, at any depth, as a double. -/
def rounded : Json → Json
  | .array items => .array (roundedItems items)
  | .object members => .object (roundedMembers members)
  | .number n => .number n.rounded
  | .null => .null
  | .bool b => .bool b
  | .string text => .string text

/-- The values with each number in them as a double. -/
def roundedItems : List Json → List Json
  | [] => []
  | x :: xs => rounded x :: roundedItems xs

/-- The members with each number in their values as a double. -/
def roundedMembers : List (String × Json) → List (String × Json)
  | [] => []
  | (key, x) :: members => (key, rounded x) :: roundedMembers members

end

theorem isMissing_rounded (v : Json) : v.rounded.isMissing = v.isMissing := by
  cases v <;> rfl

theorem compareWith?_rounded (v : Json) (literal : Literal) :
    v.rounded.compareWith? literal = v.compareWith? literal := by
  cases v with
  | number n =>
    cases literal with
    | number x => exact n.compare?_rounded x
    | _ => rfl
  | _ => cases literal <;> rfl

mutual

/-- The text by which a value is searched does not look closer at the numbers in lists either. -/
theorem displayChars_rounded : ∀ v : Json, v.rounded.displayChars = v.displayChars
  | .number n => by
    simp only [rounded, displayChars]
    rw [n.text_rounded]
  | .array [] => rfl
  | .array (item :: items) => by
    simp only [rounded, roundedItems, displayChars]
    rw [displayItem_rounded item, displayItems_rounded items]
  | .null => rfl
  | .bool _ => rfl
  | .string _ => rfl
  | .object _ => by simp only [rounded, displayChars]

theorem displayItem_rounded : ∀ item : Json, displayItem item.rounded = displayItem item
  | .null => rfl
  | .bool b => rfl
  | .number n => by
    have h := displayChars_rounded (.number n)
    simpa only [rounded, displayItem] using h
  | .string text => rfl
  | .array items => by
    have h := displayChars_rounded (.array items)
    simpa only [rounded, displayItem] using h
  | .object _ => by simp only [rounded, displayItem, displayChars]

theorem displayItems_rounded : ∀ items : List Json,
    displayItems (roundedItems items) = displayItems items
  | [] => rfl
  | item :: items => by
    simp only [roundedItems, displayItems]
    rw [displayItem_rounded item, displayItems_rounded items]

end

end Json

/-! ## Rules -/

/-- A predicate cannot tell two views apart at a field: it is missing in both, or its values are
equal up to the rounding of numbers. -/
def Alike (first second : FieldView) (name : String) : Prop :=
  Missing (first name) ∧ Missing (second name) ∨
    ∃ v w, first name = some v ∧ second name = some w ∧ v.rounded = w.rounded

namespace Test

variable (test : Test)

theorem passes_of_missing {value : Option Json} (h : Missing value) :
    test.passes value = test.passesMissing := by
  rcases h with rfl | rfl | rfl <;> rfl

/-- A rule does not look closer at a value than rounding does. -/
theorem passes_rounded (v : Json) : test.passes (some v.rounded) = test.passes (some v) := by
  simp only [passes, passesPresent, Json.isMissing_rounded, Json.compareWith?_rounded,
    Json.displayChars_rounded]

/-- A rule does not tell two views apart that are alike at its field. -/
theorem passes_congr {first second : FieldView} (h : Alike first second test.field) :
    test.passes (first test.field) = test.passes (second test.field) := by
  rcases h with ⟨hfirst, hsecond⟩ | ⟨v, w, hv, hw, heq⟩
  · rw [passes_of_missing test hfirst, passes_of_missing test hsecond]
  · rw [hv, hw, ← passes_rounded test v, heq, passes_rounded test w]

end Test

/-- A rule is compiled by the kind of its field alone. -/
theorem Rule.compile_congr {first second : Catalog} {rule : Rule}
    (h : first.kindOf rule.field = second.kindOf rule.field) :
    rule.compile first = rule.compile second := by
  simp only [compile, h]

/-! ## Trees -/

/-- What can be asked for its fields: a map, a value, or a record. -/
inductive Source where
  | map (fields : Keyed Json)
  | value (v : Json)
  | record (r : Record)

/-- What a source shows of itself. -/
def Source.view : Source → FieldView
  | .map fields => fields.get?
  | .value v => v.view
  | .record r => r.view

namespace Query

/-- A tree does not tell two views apart that are alike at all its fields, under two catalogs that
give its fields the same kinds. The induction is on the tree, whose rules are those of its children. -/
theorem accepts_congr_of_alike {catalog other : Catalog} {first second : FieldView} (query : Query) :
    (∀ rule ∈ query.rules, catalog.kindOf rule.field = other.kindOf rule.field) →
    (∀ rule ∈ query.rules, Alike first second rule.field) →
    (query.compile catalog).accepts first = (query.compile other).accepts second := by
  induction query using Query.induction with
  | rule r =>
    intro hkinds halike
    have hkind := hkinds r (List.mem_singleton_self r)
    simp only [compile, Predicate.accepts, Rule.compile_congr hkind]
    exact Test.passes_congr _ (halike r (List.mem_singleton_self r))
  | group combinator children ih =>
    intro hkinds halike
    have hchildren : ∀ child ∈ children,
        (child.compile catalog).accepts first = (child.compile other).accepts second := by
      intro child hchild
      exact ih child hchild
        (fun rule hrule => hkinds rule (mem_rules_group.2 ⟨child, hchild, hrule⟩))
        (fun rule hrule => halike rule (mem_rules_group.2 ⟨child, hchild, hrule⟩))
    rw [accepts_compile_group, accepts_compile_group, List.map_congr_left hchildren]

/-- A predicate looks at nothing but its own fields and their kinds. Two sources that are alike at
the fields of a tree are accepted alike, whatever else they and the catalogs hold; and a record
shows its user fields and nothing else, just as the map and the object of these do. -/
theorem accepts_compile_congr :
    (∀ (query : Query) (catalog other : Catalog) (first second : Source),
      (∀ rule ∈ query.rules, catalog.kindOf rule.field = other.kindOf rule.field) →
      (∀ rule ∈ query.rules, Alike first.view second.view rule.field) →
      (query.compile catalog).accepts first.view = (query.compile other).accepts second.view) ∧
    ∀ (record : Record) (name : String),
      (Source.record record).view name = (Source.map record.fields).view name ∧
      (Source.record record).view name = (Source.value (.object record.fields.entries)).view name := by
  refine ⟨?_, ?_⟩
  · intro query catalog other first second hkinds halike
    exact accepts_congr_of_alike query hkinds halike
  · intro record name
    exact ⟨rfl, rfl⟩

/-- A query on two fields. -/
def noteQuery : Query :=
  .group .and [.rule ⟨"note", .equal, .string ""⟩, .rule ⟨"sizes", .endsWith, .string "7,750"⟩]

/-- One record, whose note is null and whose sizes are whole numbers. -/
def noteObject : Json :=
  .object [("note", .null),
    ("sizes", .array [.number (.whole ⟨-7, by decide, by decide⟩),
      .number (.whole ⟨750, by decide, by decide⟩)])]

/-- Another one without note, whose sizes are doubles, and with an id and another field. -/
def noteRecord : Record :=
  ⟨"note", 5, ⟨[("_id", .string "x"),
    ("sizes", .array [.number (.double ⟨true, (Magnitude.ofNat? 7).getD .zero⟩),
      .number (.double ⟨false, (Magnitude.ofNat? 750).getD .zero⟩)])], by decide⟩⟩

/-- A catalog in which the first descriptor of a field says what the empty catalog says. -/
def noteCatalog : Catalog := ⟨[⟨"sizes", some "Sizes", .text, none⟩, ⟨"sizes", none, .number, none⟩]⟩

theorem accepts_compile_congr_note :
    (∀ rule ∈ noteQuery.rules, Catalog.empty.kindOf rule.field = noteCatalog.kindOf rule.field) ∧
      (∀ rule ∈ noteQuery.rules,
        Alike (Source.value noteObject).view (Source.record noteRecord).view rule.field) ∧
      (noteQuery.compile .empty).accepts (Source.value noteObject).view =
        (noteQuery.compile noteCatalog).accepts (Source.record noteRecord).view := by
  have hkinds : ∀ rule ∈ noteQuery.rules,
      Catalog.empty.kindOf rule.field = noteCatalog.kindOf rule.field := by decide
  have hsizes : (Json.member? "sizes" noteObject).map Json.rounded =
      (noteRecord.fields.get? "sizes").map Json.rounded := by decide +kernel
  have halike : ∀ rule ∈ noteQuery.rules,
      Alike (Source.value noteObject).view (Source.record noteRecord).view rule.field := by
    intro rule hrule
    rcases List.mem_cons.1 hrule with rfl | hrule
    · exact .inl ⟨.inr (.inl rfl), .inl rfl⟩
    · obtain rfl := List.mem_singleton.1 hrule
      exact .inr ⟨_, _, rfl, rfl, Option.some.inj hsizes⟩
  exact ⟨hkinds, halike, accepts_compile_congr.1 noteQuery .empty noteCatalog (.value noteObject)
    (.record noteRecord) hkinds halike⟩

end Query

end RecordQuery
