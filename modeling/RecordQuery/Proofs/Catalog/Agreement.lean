/-
RecordQuery.Proofs.Catalog.Agreement — when the two ways to read a catalog agree.

A catalog is read from the value that a text holds or straight from the text,
and mostly to the same effect. The two differ in what they ask of an object that
describes a field. For the value, the last of several members with one key
counts, and whatever stands under a key that descriptors do not know has to be
readable. Straight from the text a known key may come once only, and what stands
under another key is skipped, even where it cannot be read. Nothing else keeps
them apart: where both find a catalog it is the same.

Main statements:
* `WrittenField.field?_eq_collected?` — a descriptor with keys of its own that
  can be read as a whole;
* `Catalog.parse_readText` — catalogs;
* `Catalog.parse_readText_apart` — two texts that one reader accepts and the
  other one does not.
-/
import RecordQuery.Proofs.Catalog.AsWritten
import RecordQuery.Proofs.Keyed

namespace RecordQuery

variable {α β : Type} {key : String} {draft : Field.Draft}

/-! ## Known keys -/

/-- The keys of some members that descriptors know, as often as they occur. -/
def knownKeys (members : List (String × α)) : List String :=
  (members.map (·.1)).filter (· ∈ fieldKeys)

theorem knownKeys_cons_of_mem (hkey : key ∈ fieldKeys) (x : α) (members : List (String × α)) :
    knownKeys ((key, x) :: members) = key :: knownKeys members := by
  simp [knownKeys, hkey]

theorem knownKeys_cons_of_not_mem (hkey : key ∉ fieldKeys) (x : α) (members : List (String × α)) :
    knownKeys ((key, x) :: members) = knownKeys members := by
  simp [knownKeys, hkey]

theorem knownKeys_map (f : α → β) (members : List (String × α)) :
    knownKeys (members.map fun member => (member.1, f member.2)) = knownKeys members := by
  simp [knownKeys, Function.comp_def]

theorem lookup_eq_none_of_not_mem {members : List (String × α)} (hkey : key ∈ fieldKeys)
    (h : key ∉ knownKeys members) : members.lookup key = none := by
  rw [List.lookup_eq_none_iff]
  intro member hmember
  refine bne_iff_ne.2 fun heq => h ?_
  exact List.mem_filter.2 ⟨heq ▸ List.mem_map_of_mem hmember, by simpa using hkey⟩

theorem lookup_cons_of_ne {other : String} (hne : other ≠ key) (x : α)
    (members : List (String × α)) : ((key, x) :: members).lookup other = members.lookup other := by
  have hbeq : (other == key) = false := beq_eq_false_iff_ne.2 hne
  rw [List.lookup_cons, hbeq]

/-- A known key that is not repeated keeps its value when the members are collected. -/
theorem lookup_foldl_putEntry {entries : List (String × α)} (hnodup : (knownKeys entries).Nodup)
    (hkey : key ∈ fieldKeys) (sofar : List (String × α)) :
    (entries.foldl (fun sofar entry => putEntry entry.1 entry.2 sofar) sofar).lookup key =
      (entries.lookup key).or (sofar.lookup key) := by
  induction entries generalizing sofar with
  | nil => rfl
  | cons entry entries ih =>
    obtain ⟨other, x⟩ := entry
    have hrest : (knownKeys entries).Nodup := by
      by_cases hother : other ∈ fieldKeys
      · rw [knownKeys_cons_of_mem hother] at hnodup
        exact (List.nodup_cons.1 hnodup).2
      · rwa [knownKeys_cons_of_not_mem hother] at hnodup
    rw [List.foldl_cons, ih hrest, lookup_putEntry]
    by_cases heq : key = other
    · subst heq
      rw [knownKeys_cons_of_mem hkey] at hnodup
      simp [lookup_eq_none_of_not_mem hkey (List.nodup_cons.1 hnodup).1]
    · rw [lookup_cons_of_ne heq, if_neg heq]

theorem lookup_collectEntries {entries : List (String × α)} (hnodup : (knownKeys entries).Nodup)
    (hkey : key ∈ fieldKeys) : (collectEntries entries).lookup key = entries.lookup key := by
  rw [collectEntries, lookup_foldl_putEntry hnodup hkey]
  cases entries.lookup key <;> rfl

theorem increasing_collectEntries (entries : List (String × α)) :
    Increasing (collectEntries entries) := by
  have hfold (sofar : List (String × α)) (h : Increasing sofar) :
      Increasing (entries.foldl (fun sofar entry => putEntry entry.1 entry.2 sofar) sofar) := by
    induction entries generalizing sofar with
    | nil => exact h
    | cons entry entries ih => exact ih _ (increasing_putEntry entry.1 entry.2 h)
  exact hfold [] List.Pairwise.nil

/-- Collected members have keys of their own. -/
theorem nodup_knownKeys_collectEntries (entries : List (String × α)) :
    (knownKeys (collectEntries entries)).Nodup := by
  have hkeys := increasing_iff.1 (increasing_collectEntries entries)
  exact (hkeys.imp String.ne_of_lt).filter _

/-! ## Drafts -/

/-- What is known of a field after a value for it was met or not. -/
def metValue (f : Json → Option β) (former : Option β) : Option Json → Option (Option β)
  | none => some former
  | some value => (f value).map some

theorem metValue_none (f : Json → Option β) (former : Option β) :
    metValue f former none = some former := rfl

theorem metValue_some (f : Json → Option β) (former : Option β) (value : Json) :
    metValue f former (some value) = (f value).map some := rfl

namespace Field.Draft

/-- The draft with the values that stand under the known keys. -/
def withValues (draft : Draft) (value? : String → Option Json) : Option Draft :=
  (metValue Json.text? draft.name (value? "name")).bind fun name =>
    (metValue (Json.orNull Json.text?) draft.label (value? "label")).bind fun label =>
      (metValue (fun value => some (FieldKind.ofJson value)) draft.kind (value? "type")).bind
        fun kind =>
          (metValue (Json.orNull Json.text?) draft.inputHint (value? "inputType")).map fun hint =>
            ⟨name, label, kind, hint⟩

/-- Takes members one after the other; the later of two with one key counts. -/
def takeAll (draft : Draft) (entries : List (String × Json)) : Option Draft :=
  (entries.foldlM (fun (draft : Draft) entry => draft.take entry.1 entry.2) draft).toOption

theorem takeAll_cons (draft : Draft) (entry : String × Json) (entries : List (String × Json)) :
    draft.takeAll (entry :: entries) =
      (draft.take entry.1 entry.2).toOption.bind fun next => next.takeAll entries := by
  rw [takeAll, List.foldlM_cons]
  exact Except.toOption_bind _ _

theorem take_of_not_mem (hkey : key ∉ fieldKeys) (draft : Draft) (value : Json) :
    draft.take key value = .ok draft := by
  simp only [fieldKeys, List.mem_cons, List.not_mem_nil, or_false, not_or] at hkey
  obtain ⟨hname, hlabel, htype, hhint⟩ := hkey
  rw [take, if_neg hname, if_neg hlabel, if_neg htype, if_neg hhint]

/-- Members with keys of their own are found by their keys, in whatever order they come. -/
theorem takeAll_eq_withValues {entries : List (String × Json)}
    (hnodup : (knownKeys entries).Nodup) (draft : Draft) :
    draft.takeAll entries = draft.withValues fun key => entries.lookup key := by
  induction entries generalizing draft with
  | nil => rfl
  | cons entry entries ih =>
    obtain ⟨key, value⟩ := entry
    rw [takeAll_cons]
    by_cases hkey : key ∈ fieldKeys
    · rw [knownKeys_cons_of_mem hkey] at hnodup
      obtain ⟨hnew, hrest⟩ := List.nodup_cons.1 hnodup
      have hnone := lookup_eq_none_of_not_mem hkey hnew
      simp only [ih hrest]
      simp only [fieldKeys, List.mem_cons, List.not_mem_nil, or_false] at hkey
      rcases hkey with rfl | rfl | rfl | rfl
      · rw [toOption_take_name]
        simp only [withValues, hnone, metValue_none, Option.bind_some, List.lookup_cons_self,
          metValue_some, List.lookup_cons, String.reduceBEq]
        cases value.text? <;> simp
      · rw [toOption_take_label]
        simp only [withValues, hnone, metValue_none, Option.bind_some, List.lookup_cons,
          String.reduceBEq, metValue_some]
        cases Json.orNull Json.text? value <;> simp
      · rw [toOption_take_type]
        simp [withValues, List.lookup_cons, hnone, metValue_none, metValue_some]
      · rw [toOption_take_inputType]
        simp only [withValues, hnone, metValue_none, Option.map_some, List.lookup_cons,
          String.reduceBEq, metValue_some, Option.map_map]
        cases Json.orNull Json.text? value <;> simp
    · rw [knownKeys_cons_of_not_mem hkey] at hnodup
      rw [take_of_not_mem hkey, Except.toOption_ok, Option.bind_some, ih hnodup]
      simp only [fieldKeys, List.mem_cons, List.not_mem_nil, or_false, not_or] at hkey
      obtain ⟨hname, hlabel, htype, hhint⟩ := hkey
      simp only [withValues, lookup_cons_of_ne (Ne.symm hname), lookup_cons_of_ne (Ne.symm hlabel),
        lookup_cons_of_ne (Ne.symm htype), lookup_cons_of_ne (Ne.symm hhint)]

/-- Collecting members with known keys of their own does not change what is found. -/
theorem takeAll_collectEntries {entries : List (String × Json)}
    (hnodup : (knownKeys entries).Nodup) (draft : Draft) :
    draft.takeAll (collectEntries entries) = draft.takeAll entries := by
  have hlookup {key : String} (hkey : key ∈ fieldKeys) :
      (collectEntries entries).lookup key = entries.lookup key := lookup_collectEntries hnodup hkey
  rw [takeAll_eq_withValues (nodup_knownKeys_collectEntries entries), takeAll_eq_withValues hnodup]
  simp only [withValues, hlookup (show "name" ∈ fieldKeys by decide),
    hlookup (show "label" ∈ fieldKeys by decide), hlookup (show "type" ∈ fieldKeys by decide),
    hlookup (show "inputType" ∈ fieldKeys by decide)]

/-! ### Each key once -/

/-- A key that was taken was met; the others are as they were. -/
theorem has_of_take {value : Json} {next : Draft} (hkey : key ∈ fieldKeys)
    (h : (draft.take key value).toOption = some next) (other : String) :
    next.has other = (draft.has other || decide (other = key)) := by
  simp only [fieldKeys, List.mem_cons, List.not_mem_nil, or_false] at hkey
  rcases hkey with rfl | rfl | rfl | rfl
  · rw [toOption_take_name] at h
    obtain ⟨name, -, rfl⟩ := Option.map_eq_some_iff.1 h
    by_cases hother : other = "name" <;> simp [has, hother]
  · rw [toOption_take_label] at h
    obtain ⟨label, -, rfl⟩ := Option.map_eq_some_iff.1 h
    by_cases hother : other = "label" <;> simp [has, hother]
  · rw [toOption_take_type] at h
    cases h
    by_cases hother : other = "type" <;> simp [has, hother]
  · rw [toOption_take_inputType] at h
    obtain ⟨hint, -, rfl⟩ := Option.map_eq_some_iff.1 h
    by_cases hother : other = "inputType" <;> simp [has, hother]

/-- No known key comes twice where each was taken once. -/
theorem nodup_of_takeOnce {members : List (String × Option Json)} {next : Draft}
    (h : members.foldlM takeOnce draft = some next) :
    (knownKeys members).Nodup ∧ ∀ key ∈ knownKeys members, draft.has key = false := by
  induction members generalizing draft with
  | nil => exact ⟨List.nodup_nil, List.forall_mem_nil _⟩
  | cons member members ih =>
    obtain ⟨key, value⟩ := member
    rw [List.foldlM_cons] at h
    obtain ⟨middle, htake, hrest⟩ := Option.bind_eq_some_iff.1 h
    obtain ⟨hnodup, hnew⟩ := ih hrest
    by_cases hkey : key ∈ fieldKeys
    · rw [knownKeys_cons_of_mem hkey]
      rw [takeOnce, if_pos hkey] at htake
      split at htake
      · cases htake
      · rename_i hmissing
        obtain ⟨value, -, htake⟩ := Option.bind_eq_some_iff.1 htake
        have hhas := has_of_take hkey htake
        refine ⟨List.nodup_cons.2 ⟨fun hmem => ?_, hnodup⟩, List.forall_mem_cons.2 ⟨?_, ?_⟩⟩
        · have hagain := hnew key hmem
          rw [hhas] at hagain
          simp at hagain
        · simpa using hmissing
        · intro other hother
          have hlater := hnew other hother
          rw [hhas] at hlater
          exact (Bool.or_eq_false_iff.1 hlater).1
    · rw [knownKeys_cons_of_not_mem hkey]
      rw [takeOnce, if_neg hkey] at htake
      cases htake
      exact ⟨hnodup, hnew⟩

/-- Known keys that come once are taken as in any case. -/
theorem takeOnce_of_nodup {entries : List (String × Json)} (hnodup : (knownKeys entries).Nodup)
    (hnew : ∀ key ∈ knownKeys entries, draft.has key = false) :
    (entries.map fun entry => (entry.1, some entry.2)).foldlM takeOnce draft =
      draft.takeAll entries := by
  induction entries generalizing draft with
  | nil => rfl
  | cons entry entries ih =>
    obtain ⟨key, value⟩ := entry
    rw [List.map_cons, List.foldlM_cons, takeAll_cons]
    by_cases hkey : key ∈ fieldKeys
    · rw [knownKeys_cons_of_mem hkey] at hnodup hnew
      obtain ⟨hfirst, hlater⟩ := List.forall_mem_cons.1 hnew
      obtain ⟨hother, hrest⟩ := List.nodup_cons.1 hnodup
      have honce : draft.takeOnce (key, some value) = (draft.take key value).toOption := by
        rw [takeOnce, if_pos hkey, hfirst]
        rfl
      rw [honce]
      refine Option.bind_congr fun next hnext => ih hrest fun other hmem => ?_
      have hne : other ≠ key := fun heq => hother (heq ▸ hmem)
      rw [has_of_take hkey hnext, hlater other hmem]
      simpa using hne
    · rw [knownKeys_cons_of_not_mem hkey] at hnodup hnew
      have honce : draft.takeOnce (key, some value) = some draft := if_neg hkey
      rw [honce, take_of_not_mem hkey]
      exact ih hnodup hnew

end Field.Draft

/-! ## Descriptors -/

namespace WrittenField

/-- No key that descriptors know comes twice. -/
def HasDistinctKeys : WrittenField → Prop
  | .object members => (knownKeys members).Nodup
  | .other _ => True

/-- All that stands in the descriptor can be read. -/
def IsReadable : WrittenField → Prop
  | .object members => ∀ member ∈ members, member.2 ≠ none
  | .other _ => True

theorem exists_entries_of_isReadable {members : List (String × Option Json)}
    (h : (object members).IsReadable) :
    ∃ entries : List (String × Json), members = entries.map fun entry => (entry.1, some entry.2) := by
  induction members with
  | nil => exact ⟨[], rfl⟩
  | cons member members ih =>
    obtain ⟨hfirst, hrest⟩ := List.forall_mem_cons.1 h
    obtain ⟨entries, rfl⟩ := ih hrest
    obtain ⟨value, hvalue⟩ := Option.ne_none_iff_exists'.1 hfirst
    exact ⟨(member.1, value) :: entries, by rw [List.map_cons, ← hvalue]⟩

theorem foldlM_putWritten (entries sofar : List (String × Json)) :
    (entries.map fun entry => (entry.1, some entry.2)).foldlM putWritten sofar =
      some (entries.foldl (fun sofar entry => putEntry entry.1 entry.2 sofar) sofar) := by
  induction entries generalizing sofar with
  | nil => rfl
  | cons entry entries ih => exact ih _

theorem isReadable_of_putWritten {members : List (String × Option Json)}
    {sofar entries : List (String × Json)} (h : members.foldlM putWritten sofar = some entries) :
    (object members).IsReadable := by
  induction members generalizing sofar with
  | nil => exact List.forall_mem_nil _
  | cons member members ih =>
    rw [List.foldlM_cons] at h
    obtain ⟨middle, hput, hrest⟩ := Option.bind_eq_some_iff.1 h
    obtain ⟨value, hvalue, -⟩ := Option.map_eq_some_iff.1 hput
    exact List.forall_mem_cons.2 ⟨by rw [hvalue]; exact Option.some_ne_none value, ih hrest⟩

/-- Where the value is read, all of it can be read. -/
theorem isReadable_of_collected? {written : WrittenField} {field : Field}
    (h : written.collected? = some field) : written.IsReadable := by
  cases written with
  | object members =>
    obtain ⟨value, hvalue, -⟩ := Option.bind_eq_some_iff.1 h
    obtain ⟨entries, hentries, -⟩ := Option.map_eq_some_iff.1 hvalue
    exact isReadable_of_putWritten hentries
  | other value => trivial

/-- Where the text is read, no known key comes twice. -/
theorem hasDistinctKeys_of_field? {written : WrittenField} {field : Field}
    (h : written.field? = some field) : written.HasDistinctKeys := by
  cases written with
  | object members =>
    obtain ⟨draft, hdraft, -⟩ := Option.bind_eq_some_iff.1 h
    exact (Field.Draft.nodup_of_takeOnce hdraft).1
  | other value => trivial

theorem toOption_ofJson_object (members : List (String × Json)) :
    (Field.ofJson (.object members)).toOption =
      (Field.Draft.takeAll {} members).bind fun draft => draft.finish.toOption :=
  Except.toOption_bind _ _

/-- A descriptor that can be read, with known keys of its own, is the same in both ways. -/
theorem field?_eq_collected? {written : WrittenField} (hkeys : written.HasDistinctKeys)
    (hreadable : written.IsReadable) : written.field? = written.collected? := by
  cases written with
  | object members =>
    obtain ⟨entries, rfl⟩ := exists_entries_of_isReadable hreadable
    have hnodup : (knownKeys entries).Nodup := by
      have hsame := knownKeys_map some entries
      exact hsame ▸ hkeys
    calc field? (.object (entries.map fun entry => (entry.1, some entry.2)))
      _ = (Field.Draft.takeAll {} entries).bind fun draft => draft.finish.toOption := by
        rw [field?, Field.Draft.takeOnce_of_nodup hnodup fun _ _ => by simp [Field.Draft.has]]
      _ = (Field.Draft.takeAll {} (collectEntries entries)).bind fun draft =>
            draft.finish.toOption := by
        rw [Field.Draft.takeAll_collectEntries hnodup]
      _ = collected? (.object (entries.map fun entry => (entry.1, some entry.2))) := by
        rw [← toOption_ofJson_object, collected?, toJson?, foldlM_putWritten]
        rfl
  | other value => rfl

/-- The one way is known: the other one agrees if no known key comes twice. -/
theorem field?_iff_of_collected? {written : WrittenField} {field : Field}
    (h : written.collected? = some field) (other : Field) :
    written.field? = some other ↔ other = field ∧ written.HasDistinctKeys := by
  have hreadable := isReadable_of_collected? h
  constructor
  · intro hother
    have hkeys := hasDistinctKeys_of_field? hother
    rw [field?_eq_collected? hkeys hreadable, h] at hother
    exact ⟨(Option.some.inj hother).symm, hkeys⟩
  · rintro ⟨rfl, hkeys⟩
    rw [field?_eq_collected? hkeys hreadable, h]

/-- The other way is known: the one agrees if all that stands in the descriptor can be read. -/
theorem collected?_iff_of_field? {written : WrittenField} {field : Field}
    (h : written.field? = some field) (other : Field) :
    written.collected? = some other ↔ other = field ∧ written.IsReadable := by
  have hkeys := hasDistinctKeys_of_field? h
  constructor
  · intro hother
    have hreadable := isReadable_of_collected? hother
    rw [← field?_eq_collected? hkeys hreadable, h] at hother
    exact ⟨(Option.some.inj hother).symm, hreadable⟩
  · rintro ⟨rfl, hreadable⟩
    rw [← field?_eq_collected? hkeys hreadable, h]

end WrittenField

/-! ## Catalogs -/

/-- Two functions that agree on each entry where it has a property agree on lists whose entries all
have it. -/
theorem mapM_iff_of_forall {γ : Type} {f g : γ → Option β} {p : γ → Prop}
    (h : ∀ x y, f x = some y → ∀ z, g x = some z ↔ z = y ∧ p x) {xs : List γ} {ys : List β}
    (hf : xs.mapM f = some ys) (zs : List β) :
    xs.mapM g = some zs ↔ zs = ys ∧ ∀ x ∈ xs, p x := by
  induction xs generalizing ys zs with
  | nil =>
    cases hf
    simp [eq_comm]
  | cons x xs ih =>
    rw [List.mapM_cons] at hf ⊢
    obtain ⟨y, hy, hf⟩ := Option.bind_eq_some_iff.1 hf
    obtain ⟨ys, hys, hf⟩ := Option.bind_eq_some_iff.1 hf
    cases hf
    constructor
    · intro hg
      obtain ⟨z, hz, hg⟩ := Option.bind_eq_some_iff.1 hg
      obtain ⟨zs, hzs, hg⟩ := Option.bind_eq_some_iff.1 hg
      cases hg
      obtain ⟨rfl, hx⟩ := (h x y hy z).1 hz
      obtain ⟨rfl, hxs⟩ := (ih hys zs).1 hzs
      exact ⟨rfl, List.forall_mem_cons.2 ⟨hx, hxs⟩⟩
    · rintro ⟨rfl, hall⟩
      obtain ⟨hx, hxs⟩ := List.forall_mem_cons.1 hall
      rw [(h x y hy y).2 ⟨rfl, hx⟩, (ih hys ys).2 ⟨rfl, hxs⟩]
      rfl

namespace Catalog

theorem map_mk_iff_of_forall {f g : WrittenField → Option Field} {p : WrittenField → Prop}
    (h : ∀ x y, f x = some y → ∀ z, g x = some z ↔ z = y ∧ p x) {fields : List WrittenField}
    {catalog : Catalog} (hf : (fields.mapM f).map mk = some catalog) (other : Catalog) :
    (fields.mapM g).map mk = some other ↔ other = catalog ∧ ∀ written ∈ fields, p written := by
  obtain ⟨found, hfound, rfl⟩ := Option.map_eq_some_iff.1 hf
  have hlists := mapM_iff_of_forall h hfound
  rw [Option.map_eq_some_iff]
  constructor
  · rintro ⟨others, hothers, rfl⟩
    obtain ⟨rfl, hall⟩ := (hlists others).1 hothers
    exact ⟨rfl, hall⟩
  · rintro ⟨rfl, hall⟩
    exact ⟨found, (hlists found).2 ⟨rfl, hall⟩, rfl⟩

/-- The descriptors that a text lists, as they stand there; none if neither reader gets to its end. -/
def writtenFields (text : String) : List WrittenField := (writtenFields? text).getD []

/-- Where a catalog is read from the value that a text holds, the same is read straight from the text
if no known key comes twice in a descriptor, and no other is. Where one is read straight from the
text, the same is read from its value if all that stands in the descriptors can be read, and no other
is. -/
theorem parse_readText (text : String) :
    (∀ catalog, parse text = .ok catalog → ∀ other, readText text = .ok other ↔
      other = catalog ∧ ∀ written ∈ writtenFields text, written.HasDistinctKeys) ∧
    ∀ catalog, readText text = .ok catalog → ∀ other, parse text = .ok other ↔
      other = catalog ∧ ∀ written ∈ writtenFields text, written.IsReadable := by
  have hparse := parse_toOption text
  have hread := readText_toOption text
  simp only [← Except.toOption_eq_some, hparse, hread, writtenFields]
  cases hwritten : writtenFields? text with
  | none => simp
  | some fields =>
    simp only [Option.bind_some, Option.getD_some]
    exact ⟨fun _ h => map_mk_iff_of_forall (fun _ _ => WrittenField.field?_iff_of_collected?) h,
      fun _ h => map_mk_iff_of_forall (fun _ _ => WrittenField.collected?_iff_of_field?) h⟩

/-- A name that comes twice is refused straight from the text only, and a number out of range under a
key that descriptors do not know in the value only. -/
theorem parse_readText_apart :
    (parse "[\x7b\"name\":\"a\",\"name\":\"b\"\x7d]" = .ok ⟨[⟨"b", none, .text, none⟩]⟩ ∧
      readText "[\x7b\"name\":\"a\",\"name\":\"b\"\x7d]" =
        .error ⟨.duplicateField "name", 1, 19⟩) ∧
    parse "[\x7b\"name\":\"a\",\"x\":1e999\x7d]" =
        .error (.invalidJson .fields ⟨.numberOutOfRange, 1, 22⟩) ∧
      readText "[\x7b\"name\":\"a\",\"x\":1e999\x7d]" = .ok ⟨[⟨"a", none, .text, none⟩]⟩ := by
  have hrange : Json.read "[\x7b\"name\":\"a\",\"x\":1e999\x7d]" =
      .error ⟨.numberOutOfRange, 1, 22⟩ := by decide +kernel
  refine ⟨⟨by decide +kernel, by decide +kernel⟩, ?_, by decide +kernel⟩
  rw [parse, hrange]

end Catalog

end RecordQuery
