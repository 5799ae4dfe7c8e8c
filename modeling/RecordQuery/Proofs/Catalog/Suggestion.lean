/-
RecordQuery.Proofs.Catalog.Suggestion — which name is suggested for a name that is not listed.

The search keeps the first of the fields at the least distance, which is the
argument of the minimum in the sense of `List.argmin`. What that is can be said
without the search and without the rows of distances: a field of the catalog
that as few edits lead to as to any other, and no field before it
(`FirstNearest`). A listed name is no edit away from itself, so then the nearest
field is that name and there is nothing to suggest, however near other names
are.

Main definitions:
* `Catalog.FirstNearest` — the first of the nearest fields, and how far it is.

Main statements:
* `Catalog.nearest?_eq_argmin` — the search finds the argument of the minimum;
* `Catalog.suggest?_eq_some_iff`, `Catalog.suggest?_eq_none_iff` — what is suggested, and when
  nothing is;
* `Catalog.suggestions_nearest` — all of this, and what it says of explanations.
-/
import RecordQuery.Proofs.Text.EditDistance
import RecordQuery.Report.Explanation
import Mathlib.Data.List.MinMax

namespace RecordQuery

/-- The distance of a field's name from a word. -/
def Field.distanceFrom (word : List Char) (field : Field) : Nat :=
  editDistance word field.name.toList

theorem Field.editsApart_iff {word : List Char} {field : Field} {n : Nat} :
    EditsApart n word field.name.toList ↔ n = field.distanceFrom word :=
  RecordQuery.editsApart_iff

namespace Catalog

/-- Of all fields of the catalog that the fewest edits of a name lead to, the first one, and the
number of these edits. -/
structure FirstNearest (catalog : Catalog) (name : String) (field : Field) (distance : Nat) :
    Prop where
  mem : field ∈ catalog.fields
  apart : EditsApart distance name.toList field.name.toList
  least : ∀ other ∈ catalog.fields, ∀ n, EditsApart n name.toList other.name.toList → distance ≤ n
  first : ∀ other ∈ catalog.fields, EditsApart distance name.toList other.name.toList →
    catalog.fields.idxOf field ≤ catalog.fields.idxOf other

variable {catalog : Catalog} {name s : String} {field : Field} {distance : Nat}

/-! ## The search -/

/-- The search finds the first field at the least distance. -/
theorem nearest?_eq_argmin (word : List Char) (fields : List Field) :
    nearest? word (fields.map (·.name)) = (fields.argmin (Field.distanceFrom word)).map
      fun field => (field.name, field.distanceFrom word) := by
  induction fields with
  | nil => rfl
  | cons field fields ih =>
    rw [List.map_cons, nearest?, ih, List.argmin_cons]
    cases fields.argmin (Field.distanceFrom word) with
    | none => rfl
    | some other =>
      show (if other.distanceFrom word < field.distanceFrom word then
          some (other.name, other.distanceFrom word)
        else some (field.name, field.distanceFrom word)) =
        (if other.distanceFrom word < field.distanceFrom word then some other
        else some field).map fun field => (field.name, field.distanceFrom word)
      split <;> rfl

theorem firstNearest_iff :
    catalog.FirstNearest name field distance ↔
      catalog.fields.argmin (Field.distanceFrom name.toList) = some field ∧
        distance = field.distanceFrom name.toList := by
  rw [List.argmin_eq_some_iff]
  constructor
  · rintro ⟨hmem, hapart, hleast, hfirst⟩
    obtain rfl := Field.editsApart_iff.1 hapart
    have hle : ∀ other ∈ catalog.fields,
        field.distanceFrom name.toList ≤ other.distanceFrom name.toList :=
      fun other hother => hleast other hother _ (Field.editsApart_iff.2 rfl)
    refine ⟨⟨hmem, hle, fun other hother hge => ?_⟩, rfl⟩
    exact hfirst other hother (Field.editsApart_iff.2 (Nat.le_antisymm (hle other hother) hge))
  · rintro ⟨⟨hmem, hleast, hfirst⟩, rfl⟩
    refine ⟨hmem, Field.editsApart_iff.2 rfl, fun other hother n hapart => ?_,
      fun other hother hapart => ?_⟩
    · obtain rfl := Field.editsApart_iff.1 hapart
      exact hleast other hother
    · exact hfirst other hother (Nat.le_of_eq (Field.editsApart_iff.1 hapart).symm)

/-! ## Suggestions -/

/-- A name is suggested if it is that of the first nearest field, and near enough but not there. -/
theorem suggest?_eq_some_iff :
    catalog.suggest? name = some s ↔ ∃ field distance,
      catalog.FirstNearest name field distance ∧ field.name = s ∧ 1 ≤ distance ∧ distance ≤ 3 := by
  simp only [suggest?, nearest?_eq_argmin, firstNearest_iff]
  cases catalog.fields.argmin (Field.distanceFrom name.toList) with
  | none => simp
  | some nearest =>
    simp only [Option.map_some, Option.some.injEq]
    constructor
    · intro h
      split at h
      · rename_i hnear
        exact ⟨nearest, _, ⟨rfl, rfl⟩, Option.some.inj h, hnear⟩
      · cases h
    · rintro ⟨_, _, ⟨rfl, rfl⟩, rfl, hnear⟩
      exact if_pos hnear

/-- The nearest field is no edit away exactly if the name is listed. -/
theorem FirstNearest.eq_zero_iff (h : catalog.FirstNearest name field distance) :
    distance = 0 ↔ (catalog.find? name).isSome := by
  rw [find?, List.find?_isSome]
  constructor
  · rintro rfl
    have hword := editDistance_eq_zero_iff.1 (editsApart_iff.1 h.apart).symm
    exact ⟨field, h.mem, decide_eq_true (String.toList_inj.1 hword.symm)⟩
  · rintro ⟨listed, hlisted, hname⟩
    have hword : name.toList = listed.name.toList := by rw [of_decide_eq_true hname]
    have hzero : EditsApart 0 name.toList listed.name.toList :=
      editsApart_iff.2 (editDistance_eq_zero_iff.2 hword).symm
    exact Nat.le_zero.1 (h.least listed hlisted 0 hzero)

/-- Nothing is suggested if the name is listed or the nearest field is too far. -/
theorem suggest?_eq_none_iff :
    catalog.suggest? name = none ↔ (catalog.find? name).isSome ∨
      ∀ field distance, catalog.FirstNearest name field distance → 3 < distance := by
  rw [Option.eq_none_iff_forall_ne_some]
  constructor
  · intro hnone
    by_cases hlisted : (catalog.find? name).isSome
    · exact .inl hlisted
    · refine .inr fun field distance hnearest => ?_
      have hpos : distance ≠ 0 := fun hzero => hlisted (hnearest.eq_zero_iff.1 hzero)
      by_contra hnear
      exact hnone field.name (suggest?_eq_some_iff.2 ⟨field, distance, hnearest, rfl, by omega⟩)
  · intro hcase s hs
    obtain ⟨field, distance, hnearest, -, hpos, hle⟩ := suggest?_eq_some_iff.1 hs
    rcases hcase with hlisted | hfar
    · have := hnearest.eq_zero_iff.2 hlisted
      omega
    · have := hfar field distance hnearest
      omega

/-- What is suggested is listed. -/
theorem find?_of_suggest? (h : catalog.suggest? name = some s) : (catalog.find? s).isSome := by
  obtain ⟨field, distance, hnearest, rfl, -⟩ := suggest?_eq_some_iff.1 h
  rw [find?, List.find?_isSome]
  exact ⟨field, hnearest.mem, decide_eq_true rfl⟩

/-- A name is suggested exactly if it is that of the first field of those that the fewest edits of
the given name lead to, and there are one to three of these edits; otherwise the name is listed, or
no field is near. In an explanation a suggestion stands only with a field that is not in the
catalog, and names one that is. -/
theorem suggestions_nearest (catalog : Catalog) (name : String) :
    (∀ s, catalog.suggest? name = some s ↔ ∃ field distance,
      catalog.FirstNearest name field distance ∧ field.name = s ∧ 1 ≤ distance ∧ distance ≤ 3) ∧
    (catalog.suggest? name = none ↔ (catalog.find? name).isSome ∨
      ∀ field distance, catalog.FirstNearest name field distance → 3 < distance) ∧
    (catalog.fields = [] ∨ (catalog.find? name).isSome → catalog.suggest? name = none) ∧
    ∀ query : Query, ∀ note ∈ (explain catalog query).rules, ∀ s, note.suggestion = some s →
      note.inCatalog = false ∧ (catalog.find? s).isSome := by
  refine ⟨fun s => suggest?_eq_some_iff, suggest?_eq_none_iff, ?_, ?_⟩
  · rintro (hempty | hfound)
    · refine suggest?_eq_none_iff.2 (.inr fun field distance hnearest => ?_)
      have hmem := hnearest.mem
      rw [hempty] at hmem
      cases hmem
    · exact suggest?_eq_none_iff.2 (.inl hfound)
  · intro query note hnote s hs
    obtain ⟨rule, -, rfl⟩ := List.mem_map.1 hnote
    refine ⟨?_, find?_of_suggest? hs⟩
    by_contra hlisted
    have hnone := suggest?_eq_none_iff.2 (.inl (Bool.eq_true_of_not_eq_false hlisted))
    exact Option.some_ne_none s (hs.symm.trans hnone)

/-- A catalog of names that are all one edit away from `sore`. -/
def similarNames : Catalog :=
  ⟨["core", "score", "store"].map fun name => ⟨name, none, .number, none⟩⟩

/-- The first of three equally near names is suggested; for a name that is listed none is, though
the name before it is one edit away. -/
theorem suggestions_nearest_sore :
    (∃ field distance, similarNames.FirstNearest "sore" field distance ∧
      field.name = "core" ∧ 1 ≤ distance ∧ distance ≤ 3) ∧
    (similarNames.find? "score").isSome ∧ similarNames.suggest? "score" = none ∧
    empty.fields = [] ∧ empty.suggest? "score" = none ∧
    ∃ note ∈ (explain similarNames (.rule ⟨"sore", .equal, .null⟩)).rules,
      note.suggestion = some "core" ∧ note.inCatalog = false ∧
        (similarNames.find? "core").isSome := by
  have hsuggested : similarNames.suggest? "sore" = some "core" := by decide
  have hlisted : (similarNames.find? "score").isSome := by decide
  obtain ⟨hnearest, -, -, hexplained⟩ := suggestions_nearest similarNames "sore"
  obtain ⟨-, -, hnone, -⟩ := suggestions_nearest similarNames "score"
  obtain ⟨-, -, hempty, -⟩ := suggestions_nearest empty "score"
  have hnote : Rule.note similarNames ⟨"sore", .equal, .null⟩ ∈
      (explain similarNames (.rule ⟨"sore", .equal, .null⟩)).rules := List.mem_singleton.2 rfl
  exact ⟨(hnearest "core").1 hsuggested, hlisted, hnone (.inr hlisted), rfl, hempty (.inl rfl),
    _, hnote, hsuggested, hexplained _ _ hnote "core" hsuggested⟩

end Catalog

end RecordQuery
