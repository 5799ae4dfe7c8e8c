/-
RecordQuery.Proofs.Catalog — a written catalog is read back.

A descriptor writes its keys in the order of its fields and leaves out what is
not set, and the reader of JSON collects the members of an object in order of
their keys, so a descriptor does not come back as the value that was written.
But the value that comes back holds the same descriptor, whatever its texts
are: every member is taken by its key, in any order, and what is missing was
not set.

Main statements:
* `Field.ofJson_collected` — a descriptor is found again in its collected members;
* `Catalog.parse_written` — a catalog is read from its text, in both layouts and
  with white space behind it.
-/
import RecordQuery.Catalog.Reader
import RecordQuery.Proofs.Json.Value

namespace RecordQuery

open Json (NumberEnd ReadsIf)

variable {layout : Layout} {depth budget levels : Nat} {rest : List Char}

/-! ## Descriptors -/

namespace Field

/-- The members of a descriptor in the order in which they are written. -/
def members (field : Field) : List (String × Json) :=
  ("name", .string field.name) :: (Catalog.optionalMember "label" field.label
    ++ ("type", .string field.kind.name) :: Catalog.optionalMember "inputType" field.inputHint)

/-- The value as which a written descriptor is read. -/
def collected (field : Field) : Json := .ofMembers field.members

section Drafts

variable (draft : Draft) (text : String)

@[simp] theorem Draft.take_name :
    draft.take "name" (.string text) = .ok { draft with name := some text } := rfl

@[simp] theorem Draft.take_label :
    draft.take "label" (.string text) = .ok { draft with label := some (some text) } := rfl

@[simp] theorem Draft.take_type (kind : FieldKind) :
    draft.take "type" (.string kind.name) = .ok { draft with kind := some kind } := by
  show Except.ok { draft with kind := some (.ofName kind.name) } = _
  rw [FieldKind.ofName_name]

@[simp] theorem Draft.take_inputType :
    draft.take "inputType" (.string text) = .ok { draft with inputHint := some (some text) } := rfl

end Drafts

/-- A descriptor is found again in its members when these are collected in order of their keys. -/
theorem ofJson_collected (field : Field) : ofJson field.collected = .ok field := by
  obtain ⟨name, label, kind, hint⟩ := field
  -- the members are in another order than the fields, and two of them may be missing
  cases label <;> cases hint <;>
    simp (disch := decide) [collected, members, Catalog.optionalMember, Json.ofMembers,
      collectEntries, putEntry_nil, putEntry_before, putEntry_behind, ofJson, Draft.finish,
      bind, Except.bind, pure, Except.pure]

/-- All that a descriptor holds is text. -/
theorem exists_text_of_mem_members {field : Field} {m : String × Json} (h : m ∈ field.members) :
    ∃ text, m.2 = .string text := by
  simp only [members, Catalog.optionalMember, List.mem_cons, List.mem_append] at h
  grind

/-- A written descriptor is read with its members collected. -/
theorem readValue_written (hlayout : layout.IsBlank) (field : Field)
    (hbudget : (Json.chars layout depth field.toJson).length ≤ budget) (levels : Nat)
    (rest : List Char) :
    ReadsIf (∃ inner, levels = inner + 1) field.collected rest
      (Json.readValue budget levels (Json.chars layout depth field.toJson ++ rest)) := by
  have hmembers := Json.readValue_object_written id (fun _ _ => True) hlayout field.members
    (fun inner m hm rest hrest => by
      have hlength := Nat.le_trans (Json.length_member_le hm) hbudget
      obtain ⟨text, htext⟩ := exists_text_of_mem_members hm
      rw [htext] at hlength ⊢
      have htexts := Json.readValue_written hlayout (.string text) hlength inner hrest
      exact htexts.congr (by simp [Json.nesting]))
    hbudget levels rest
  exact ReadsIf.congr hmembers (by simp)

end Field

/-! ## Catalogs -/

namespace Catalog

/-- The values as which some descriptors are read hold these descriptors. -/
theorem fieldsOf_collected (fields : List Field) (index : Nat) :
    fieldsOf index (fields.map Field.collected) = .ok fields := by
  induction fields generalizing index with
  | nil => rfl
  | cons field fields ih =>
    simp only [List.map_cons, fieldsOf, Field.ofJson_collected, ih]
    rfl

/-- The text of a catalog is read as the list of its descriptors, each with its members collected. -/
theorem read_written (hlayout : layout.IsBlank) {blank : List Char}
    (hblank : ∀ c ∈ blank, Json.isSpace c = true) (catalog : Catalog) :
    Json.read (String.ofList (Json.chars layout 0 catalog.toJson ++ blank)) =
      .ok (.array (catalog.fields.map Field.collected)) := by
  have hbudget : (Json.chars layout 0 catalog.toJson).length ≤
      (Json.chars layout 0 catalog.toJson ++ blank).length + 1 := by
    rw [List.length_append]
    omega
  have hitems := Json.readValue_array_written Field.toJson hlayout catalog.fields
    (fun inner field hfield rest _ => Field.readValue_written hlayout field
      (Nat.le_trans (Json.length_item_le (List.mem_map_of_mem hfield)) hbudget) inner rest)
    hbudget Json.maxLevels blank
  have hfits : ∃ inner, Json.maxLevels = inner + 1 ∧
      ∀ field ∈ catalog.fields, ∃ further, inner = further + 1 :=
    ⟨126, rfl, fun _ _ => ⟨125, rfl⟩⟩
  have hend : Json.skipSpace blank = [] := by
    rw [← List.append_nil blank, Json.skipSpace_append hblank]
    rfl
  have hread : Json.readValue ((Json.chars layout 0 catalog.toJson ++ blank).length + 1)
      Json.maxLevels (Json.chars layout 0 catalog.toJson ++ blank) =
        .ok (.array (catalog.fields.map Field.collected), blank) := hitems.ok hfits
  rw [Json.read, Json.readWhole_ofList, hread]
  simp only [hend]

/-- A catalog is read from its text, whatever its names, labels and hints are. -/
theorem parse_written (hlayout : layout.IsBlank) {blank : List Char}
    (hblank : ∀ c ∈ blank, Json.isSpace c = true) (catalog : Catalog) :
    parse (String.ofList (Json.chars layout 0 catalog.toJson ++ blank)) = .ok catalog := by
  simp only [parse, read_written hlayout hblank, ofJson, fieldsOf_collected]
  rfl

/-- A catalog is read from its compact text. -/
theorem parse_compact (catalog : Catalog) : parse catalog.toJson.compact = .ok catalog := by
  have h := parse_written Layout.isBlank_compact (List.forall_mem_nil _) catalog
  rwa [List.append_nil] at h

/-- A catalog is read from its pretty text. -/
theorem parse_pretty (catalog : Catalog) : parse catalog.toJson.pretty = .ok catalog := by
  have h := parse_written Layout.isBlank_pretty (List.forall_mem_nil _) catalog
  rwa [List.append_nil] at h

/-- A catalog is read from its pretty text with the line end that a command prints behind it. -/
theorem parse_pretty_line (catalog : Catalog) :
    parse (catalog.toJson.pretty ++ "\n") = .ok catalog := by
  have hblank : ∀ c ∈ ['\n'], Json.isSpace c = true := List.forall_mem_singleton.2 (by decide)
  have h := parse_written Layout.isBlank_pretty hblank catalog
  rwa [String.ofList_append] at h

end Catalog

end RecordQuery
