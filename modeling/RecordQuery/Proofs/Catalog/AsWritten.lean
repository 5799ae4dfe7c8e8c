/-
RecordQuery.Proofs.Catalog.AsWritten — the descriptors of a text as they stand there.

A catalog is read from a text in two ways. Both go over the same characters, so
both can be told from what stands there: which members an object has, in order
and with repeated keys, and what their values are. A value under a key that
descriptors do not know is the difference: one reader reads it, the other one
skips it, so it is noted whether it can be read.

From what is written, the value that a text holds collects the members of each
object, and needs all values; the reader that goes straight to the descriptor
takes each known key once, and does not look at the others.

Main statements:
* `parse_toOption` — the catalog that is read from the value;
* `readText_toOption` — the catalog that is read straight from the text.
-/
import RecordQuery.Catalog.Reader
import RecordQuery.Proofs.Json.Derived

namespace RecordQuery

open Json (Reader Derives DerivesItems Shrinks collectMember readColon readValue skipValue skipSpace)

variable {budget levels limit : Nat} {cs rest : List Char}

/-! ## What is written -/

/-- The keys that a descriptor knows. -/
def fieldKeys : List String := ["name", "label", "type", "inputType"]

/-- A descriptor as it stands in a text. -/
inductive WrittenField where
  /-- The members of an object in the order in which they stand there. Under a key that descriptors do
  not know the value is given if it can be read. -/
  | object (members : List (String × Option Json))
  /-- What is not an object. -/
  | other (value : Json)

/-- What stands behind a key of a descriptor. Under a key that descriptors do not know it is
skipped. -/
def readWrittenMember (budget levels : Nat) (key : String) : Reader (Option Json) := fun cs =>
  (readColon cs).bind fun start =>
    if key ∈ fieldKeys then
      (readValue budget levels start).map fun found => (some found.1, found.2)
    else
      (skipValue budget start).map fun skipped =>
        ((readValue budget levels start).toOption.map (·.1), skipped.2)

/-- A descriptor as it stands in the text. -/
def WrittenField.read (budget levels : Nat) : Reader WrittenField := fun cs =>
  match skipSpace cs with
  | '{' :: _ =>
    (Json.readObject budget levels fieldWanted []
      (fun inner => collectMember (readWrittenMember budget inner)) cs).map fun found =>
        (.object found.1, found.2)
  | _ => (readValue budget levels cs).map fun found => (.other found.1, found.2)

/-- The descriptors that a text lists, as they stand there. Nothing if the text cannot be read even by
skipping what stands under other keys. -/
def writtenFields? (text : String) : Option (List WrittenField) :=
  (Json.readWhole (fun budget => Json.readList budget Json.maxLevels (WrittenField.read budget))
    text).toOption

/-! ## What the readers make of it -/

/-- The members with a further one, if its value can be read: the later of two with one key counts. -/
def putWritten (sofar : List (String × Json)) (member : String × Option Json) :
    Option (List (String × Json)) :=
  member.2.map fun value => putEntry member.1 value sofar

/-- The value that is read where a descriptor stands. -/
def WrittenField.toJson? : WrittenField → Option Json
  | .object members => (members.foldlM putWritten []).map .object
  | .other value => some value

namespace Field

/-- A field of this name was met already. -/
def Draft.has (draft : Draft) (key : String) : Bool :=
  if key = "name" then draft.name.isSome
  else if key = "label" then draft.label.isSome
  else if key = "type" then draft.kind.isSome
  else if key = "inputType" then draft.inputHint.isSome
  else false

/-- Takes a member that was not met before into a draft, if descriptors know its key. -/
def Draft.takeOnce (draft : Draft) (member : String × Option Json) : Option Draft :=
  if member.1 ∈ fieldKeys then
    if draft.has member.1 then none
    else member.2.bind fun value => (draft.take member.1 value).toOption
  else some draft

end Field

/-- The descriptor that is read straight where one stands. -/
def WrittenField.field? : WrittenField → Option Field
  | .object members => (members.foldlM Field.Draft.takeOnce {}).bind fun draft => draft.finish.toOption
  | .other value => (Field.ofJson value).toOption

/-! ## Members -/

theorem shrinks_readWrittenMember (budget levels : Nat) (key : String) :
    Shrinks (readWrittenMember budget levels key) := by
  intro cs found rest h
  obtain ⟨start, hcolon, h⟩ := Except.bind_eq_ok.1 h
  have hstart := Json.length_of_readColon hcolon
  split at h
  · obtain ⟨_, hvalue, heq⟩ := Except.map_eq_ok.1 h
    cases heq
    exact (Json.shrinks_readValue budget levels hvalue).trans hstart.le
  · obtain ⟨_, hskipped, heq⟩ := Except.map_eq_ok.1 h
    cases heq
    exact (Json.shrinks_skipValue budget hskipped).trans hstart.le

/-- A member of the value that a text holds. -/
theorem derives_readEntry (hlimit : limit < budget) (sofar : List (String × Json)) (key : String) :
    Derives limit (readWrittenMember budget levels key) (fun value => putWritten sofar (key, value))
      (Json.readEntry budget levels sofar key) := by
  intro cs hcs
  rw [Json.readEntry, readWrittenMember]
  cases hcolon : readColon cs with
  | error fault => rfl
  | ok start =>
    have hstart := (Json.length_of_readColon hcolon).trans_le hcs
    simp only [Except.bind, bind]
    by_cases hkey : key ∈ fieldKeys
    · simp only [if_pos hkey]
      cases readValue budget levels start <;> rfl
    · simp only [if_neg hkey]
      cases hvalue : readValue budget levels start with
      | error fault =>
        rw [Except.toOption_map]
        cases (skipValue budget start).toOption <;> rfl
      | ok found =>
        rw [Json.skipValue_of_readValue (hstart.trans hlimit) hvalue]
        rfl

/-- A field of a descriptor that was not met before. -/
theorem derives_readField {β : Type} {f : Json → Option β} {reader : Reader β} {key : String}
    (hkey : key ∈ fieldKeys) (h : Derives limit (readValue budget levels) f reader)
    (former : Option β) :
    Derives limit (readWrittenMember budget levels key)
      (fun value => if former.isSome then none else value.bind f)
      (Json.readField reader key former) := by
  intro cs hcs
  rw [Json.readField.eq_def, readWrittenMember]
  cases former with
  | some _ => cases ((readColon cs).bind _).toOption <;> rfl
  | none =>
    cases hcolon : readColon cs with
    | error fault => rfl
    | ok start =>
      have hstart := (Json.length_of_readColon hcolon).le.trans hcs
      simp only [Except.bind, if_pos hkey]
      rw [h start hstart]
      cases readValue budget levels start <;> rfl

section Members

variable (draft : Field.Draft)

theorem toOption_textOf (value : Json) : (Field.textOf value).toOption = value.text? := by
  cases value <;> rfl

theorem toOption_optionalTextOf (value : Json) :
    (Field.optionalTextOf value).toOption = Json.orNull Json.text? value := by
  cases value <;> rfl

theorem toOption_take_name (value : Json) : (draft.take "name" value).toOption =
    value.text?.map fun name => { draft with name := some name } := by
  rw [Field.Draft.take, if_pos rfl, Except.toOption_map, toOption_textOf]

theorem toOption_take_label (value : Json) : (draft.take "label" value).toOption =
    (Json.orNull Json.text? value).map fun label => { draft with label := some label } := by
  rw [Field.Draft.take, if_neg (by decide), if_pos rfl, Except.toOption_map,
    toOption_optionalTextOf]

theorem toOption_take_type (value : Json) : (draft.take "type" value).toOption =
    some { draft with kind := some (.ofJson value) } := rfl

theorem toOption_take_inputType (value : Json) : (draft.take "inputType" value).toOption =
    (Json.orNull Json.text? value).map fun hint => { draft with inputHint := some hint } := by
  rw [Field.Draft.take, if_neg (by decide), if_neg (by decide), if_neg (by decide), if_pos rfl,
    Except.toOption_map, toOption_optionalTextOf]

/-- A member under a known key, from the parts in which the known keys differ. -/
theorem derives_readMember_of {β : Type} {f : Json → Option β} {reader : Reader β} {key : String}
    (hkey : key ∈ fieldKeys) (former : Option β) (put : β → Field.Draft)
    (h : Derives limit (readValue budget levels) f reader)
    (hread : ∀ cs, Field.readMember budget levels draft key cs =
      (Json.readField reader key former cs).map fun found => (put found.1, found.2))
    (hhas : draft.has key = former.isSome)
    (htake : ∀ value, (draft.take key value).toOption = (f value).map put) :
    Derives limit (readWrittenMember budget levels key) (fun value => draft.takeOnce (key, value))
      (Field.readMember budget levels draft key) := by
  intro cs hcs
  have honce (value : Option Json) : draft.takeOnce (key, value) =
      (if former.isSome then none else value.bind f).map put := by
    rw [Field.Draft.takeOnce, if_pos hkey, hhas]
    split
    · rfl
    · cases value with
      | none => rfl
      | some value => exact htake value
  have hfield := (derives_readField hkey h former).map put
  rw [hread, hfield cs hcs]
  simp only [honce]

/-- A member under a key that descriptors do not know. -/
theorem derives_readMember_other {key : String} (hkey : key ∉ fieldKeys) :
    Derives limit (readWrittenMember budget levels key) (fun value => draft.takeOnce (key, value))
      (Field.readMember budget levels draft key) := by
  intro cs _
  have honce (value : Option Json) : draft.takeOnce (key, value) = some draft := if_neg hkey
  have hread : Field.readMember budget levels draft key cs =
      (Json.skipField budget cs).map fun skipped => (draft, skipped.2) := by
    simp only [fieldKeys, List.mem_cons, List.not_mem_nil, or_false, not_or] at hkey
    obtain ⟨hname, hlabel, htype, hhint⟩ := hkey
    rw [Field.readMember, if_neg hname, if_neg hlabel, if_neg htype, if_neg hhint]
    cases Json.skipField budget cs <;> rfl
  rw [hread, Json.skipField, readWrittenMember]
  simp only [honce, if_neg hkey]
  cases readColon cs with
  | error fault => rfl
  | ok start =>
    show ((skipValue budget start).map _).toOption = ((skipValue budget start).map _).toOption.bind _
    rw [Except.toOption_map, Except.toOption_map]
    cases (skipValue budget start).toOption <;> rfl

/-- A member of a descriptor. -/
theorem derives_readMember (key : String) :
    Derives limit (readWrittenMember budget levels key) (fun value => draft.takeOnce (key, value))
      (Field.readMember budget levels draft key) := by
  by_cases hkey : key ∈ fieldKeys
  · have hcases := hkey
    simp only [fieldKeys, List.mem_cons, List.not_mem_nil, or_false] at hcases
    rcases hcases with rfl | rfl | rfl | rfl
    · refine derives_readMember_of draft hkey draft.name
        (fun name => { draft with name := some name })
        (Json.derives_readString limit budget levels) (fun cs => ?_) rfl (toOption_take_name draft)
      rw [Field.readMember, if_pos rfl]
      cases Json.readField Json.readString "name" draft.name cs <;> rfl
    · refine derives_readMember_of draft hkey draft.label
        (fun label => { draft with label := some label })
        (Json.derives_readOptional (Json.derives_readString limit budget levels))
        (fun cs => ?_) rfl (toOption_take_label draft)
      rw [Field.readMember, if_neg (by decide), if_pos rfl]
      cases Json.readField (Json.readOptional Json.readString) "label" draft.label cs <;> rfl
    · refine derives_readMember_of draft hkey (draft.kind.map fun _ => Json.null)
        (fun kind => { draft with kind := some (.ofJson kind) })
        (Json.derives_self (readValue budget levels)) (fun cs => ?_) ?_ (toOption_take_type draft)
      · rw [Field.readMember, if_neg (by decide), if_neg (by decide), if_pos rfl]
        cases Json.readField (readValue budget levels) "type" (draft.kind.map _) cs <;> rfl
      · rw [Option.isSome_map]
        rfl
    · refine derives_readMember_of draft hkey draft.inputHint
        (fun hint => { draft with inputHint := some hint })
        (Json.derives_readOptional (Json.derives_readString limit budget levels))
        (fun cs => ?_) rfl (toOption_take_inputType draft)
      rw [Field.readMember, if_neg (by decide), if_neg (by decide), if_neg (by decide), if_pos rfl]
      cases Json.readField (Json.readOptional Json.readString) "inputType" draft.inputHint cs <;> rfl
  · exact derives_readMember_other draft hkey

end Members

/-! ## Lists of fields -/

/-- The fields behind the name, up to the end of the list. -/
def Field.readBehindName (budget levels : Nat) (name : String) : Reader Field := fun cs =>
  (Json.readNext false (Json.readOptional Json.readString) cs).bind fun label =>
    (Json.readNext false (readValue budget levels) label.2).bind fun kind =>
      (Json.readNext false (Json.readOptional Json.readString) kind.2).bind fun hint =>
        (Json.closeList hint.2).map fun rest =>
          (⟨name, label.1.getD none, (kind.1.map FieldKind.ofJson).getD .text, hint.1.getD none⟩, rest)

theorem derivesItems_readBehindName (name : String) :
    DerivesItems budget levels false (fun items => (Field.ofItems (.string name :: items)).toOption)
      (Field.readBehindName budget levels name) := by
  have hoptional := Json.derives_readOptional (Json.derives_readString budget budget levels)
  -- the last field first: behind each one the reader of those that follow it
  have hend (label : Option (Option String)) (kind : Option Json) (hint : Option (Option String)) :
      DerivesItems budget levels false _ _ :=
    Json.derivesItems_closeList
      (⟨name, label.getD none, (kind.map FieldKind.ofJson).getD .text, hint.getD none⟩ : Field)
  have hhint (label : Option (Option String)) (kind : Option Json) :
      DerivesItems budget levels false _ _ :=
    Json.derivesItems_readNext hoptional (hend label kind)
  have hkind (label : Option (Option String)) : DerivesItems budget levels false _ _ :=
    Json.derivesItems_readNext (Json.derives_self (readValue budget levels)) (hhint label)
  have hlabel : DerivesItems budget levels false _ _ := Json.derivesItems_readNext hoptional hkind
  refine Json.DerivesItems.congr hlabel fun items => ?_
  simp only [← toOption_optionalTextOf]
  rcases items with _ | ⟨label, _ | ⟨kind, _ | ⟨hint, more⟩⟩⟩
  · rfl
  · simp only [Field.ofItems]
    cases Field.optionalTextOf label <;> rfl
  · simp only [Field.ofItems]
    cases Field.optionalTextOf label <;> rfl
  · simp only [Field.ofItems]
    cases Field.optionalTextOf label with
    | error cause => rfl
    | ok label =>
      cases Field.optionalTextOf hint with
      | error cause => rfl
      | ok hint => cases more <;> rfl

/-- What follows the name; without a name the list is too short. -/
def Field.readBehindFirst (budget levels : Nat) : Option String → Reader Field
  | none => fun cs => .error (Json.shortFault 0 fieldLengthWanted cs)
  | some name => readBehindName budget levels name

theorem derivesItems_error {fault : List Char → Json.Fault} :
    DerivesItems budget levels false (fun _ => (none : Option Field)) fun cs => .error (fault cs) := by
  intro cs entries _ _
  cases (Json.readItems (readValue budget levels) entries false cs).toOption <;> rfl

/-- The inside of a descriptor that is written as a list of its fields. -/
theorem readItems_eq (cs : List Char) :
    ((Field.readItems budget levels cs).bind fun found =>
      (Json.closeList found.2).map fun rest => (found.1, rest)) =
    (Json.readNext true Json.readString cs).bind fun found =>
      Field.readBehindFirst budget levels found.1 found.2 := by
  rw [Field.readItems]
  cases Json.readNext true Json.readString cs with
  | error fault => rfl
  | ok found =>
    obtain ⟨_ | name, rest⟩ := found
    · rfl
    · simp only [bind, Except.bind, Field.readBehindFirst, Field.readBehindName]
      cases Json.readNext false (Json.readOptional Json.readString) rest with
      | error fault => rfl
      | ok label =>
        simp only
        cases Json.readNext false (readValue budget levels) label.2 with
        | error fault => rfl
        | ok kind =>
          simp only
          cases Json.readNext false (Json.readOptional Json.readString) kind.2 <;> rfl

theorem derivesItems_readItems :
    DerivesItems budget levels true (fun items => (Field.ofItems items).toOption) fun cs =>
      (Field.readItems budget levels cs).bind fun found =>
        (Json.closeList found.2).map fun rest => (found.1, rest) := by
  have hname (x : Option String) : DerivesItems budget levels false
      (fun items => x.bind fun name => (Field.ofItems (.string name :: items)).toOption)
      (Field.readBehindFirst budget levels x) := by
    cases x with
    | none => exact derivesItems_error
    | some name => exact derivesItems_readBehindName name
  simp only [readItems_eq]
  refine (Json.derivesItems_readNext (Json.derives_readString budget budget levels) hname).congr
    fun items => ?_
  cases items with
  | nil => rfl
  | cons name items =>
    cases name with
    | string name => rfl
    | _ => rcases items with _ | ⟨label, _ | ⟨kind, _ | ⟨hint, more⟩⟩⟩ <;> rfl

/-! ## Descriptors -/

namespace WrittenField

variable {more : List Char}

theorem read_object (hspace : skipSpace cs = '{' :: more) :
    read budget levels cs =
      (Json.readObject budget levels fieldWanted []
        (fun inner => collectMember (readWrittenMember budget inner)) cs).map fun found =>
          (.object found.1, found.2) := by
  rw [read, hspace]
  rfl

theorem read_other (h : ∀ more, skipSpace cs ≠ '{' :: more) :
    read budget levels cs = (readValue budget levels cs).map fun found => (.other found.1, found.2) := by
  rw [read.eq_def]
  split
  · exact absurd ‹_› (h _)
  · rfl

theorem shrinks_read (budget levels : Nat) : Shrinks (read budget levels) := by
  intro cs found rest h
  by_cases hobject : ∃ more, skipSpace cs = '{' :: more
  · obtain ⟨more, hspace⟩ := hobject
    rw [read_object hspace] at h
    obtain ⟨members, hmembers, heq⟩ := Except.map_eq_ok.1 h
    cases heq
    rw [Json.readObject, hspace] at hmembers
    simp only [if_pos] at hmembers
    cases levels with
    | zero => cases hmembers
    | succ inner =>
      have hcollect (sofar : List (String × Option Json)) (key : String) :
          Shrinks (collectMember (readWrittenMember budget inner) sofar key) := by
        intro cs found rest h
        obtain ⟨value, hvalue, heq⟩ := Except.map_eq_ok.1 h
        cases heq
        exact shrinks_readWrittenMember budget inner key hvalue
      exact (Json.shrinks_readMembers hcollect budget true [] hmembers).trans
        (Json.length_of_skipSpace_cons hspace).le
  · rw [read_other (not_exists.1 hobject)] at h
    obtain ⟨value, hvalue, heq⟩ := Except.map_eq_ok.1 h
    cases heq
    exact Json.shrinks_readValue budget levels hvalue

/-- The value that is read where a descriptor stands. -/
theorem derives_readValue (hlimit : limit < budget) (levels : Nat) :
    Derives limit (read budget levels) toJson? (readValue budget levels) := by
  intro cs hcs
  by_cases hobject : ∃ more, skipSpace cs = '{' :: more
  · obtain ⟨more, hspace⟩ := hobject
    rw [read_object hspace, Json.readObject, readValue, hspace]
    cases levels with
    | zero => rfl
    | succ inner =>
      have hmembers := Json.derives_readMembers (derives_readEntry hlimit)
        (shrinks_readWrittenMember budget inner) budget true [] more
        ((Json.length_of_skipSpace_cons hspace).le.trans hcs)
      show ((Json.readMembers (Json.readEntry budget inner) budget true [] more).map _).toOption =
        ((Json.readMembers _ budget true [] more).map _).toOption.bind _
      rw [Except.toOption_map, hmembers, Except.toOption_map]
      cases (Json.readMembers (collectMember (readWrittenMember budget inner)) budget true []
        more).toOption with
      | none => rfl
      | some found => cases h : found.1.foldlM putWritten [] <;> simp [toJson?, h]
  · rw [read_other (not_exists.1 hobject)]
    cases readValue budget levels cs <;> rfl

theorem readMembers_toOption (cs : List Char) :
    (Field.readMembers budget levels cs).toOption =
      (Json.readMembers (Field.readMember budget levels) budget true {} cs).toOption.bind fun found =>
        found.1.finish.toOption.map fun field => (field, found.2) := by
  rw [Field.readMembers]
  cases Json.readMembers (Field.readMember budget levels) budget true {} cs with
  | error fault => rfl
  | ok found =>
    obtain ⟨draft, rest⟩ := found
    cases hfinish : draft.finish with
    | error cause => simp [hfinish, bind, Except.bind, Except.toOption]
    | ok field => simp [hfinish, bind, Except.bind, Except.toOption]

/-- What is neither an object nor a list is no descriptor. -/
theorem field?_other {value : Json} (hlist : ∀ items, value ≠ .array items)
    (hobject : ∀ members, value ≠ .object members) : field? (.other value) = none := by
  cases value with
  | array items => exact absurd rfl (hlist items)
  | object members => exact absurd rfl (hobject members)
  | _ => rfl

/-- A list where a descriptor stands. -/
theorem read_list {more : List Char} (hbudget : cs.length < budget)
    (hspace : skipSpace cs = '[' :: more) :
    (Field.read budget levels cs).toOption = (readValue budget levels cs).toOption.bind fun found =>
      (field? (.other found.1)).map fun field => (field, found.2) := by
  rw [Field.read, Json.readFieldwise, readValue, hspace]
  cases levels with
  | zero => rfl
  | succ inner =>
    have hmore := Json.length_of_skipSpace_cons hspace
    have hitems : DerivesItems budget inner true _ _ := derivesItems_readItems
    have hfields := hitems more budget (by omega) (by omega)
    have hread : (Field.readItems budget inner more).bind (fun found =>
        (Json.closeList found.2).map fun rest => (found.1, rest)) =
        (Field.readItems budget inner more).bind fun found =>
          (Json.closeList found.2).bind fun rest => .ok (found.1, rest) := by
      cases Field.readItems budget inner more with
      | error fault => rfl
      | ok found => cases Json.closeList found.2 <;> rfl
    simp only [hread] at hfields
    show ((Field.readItems budget inner more).bind fun found =>
      (Json.closeList found.2).bind fun rest => .ok (found.1, rest)).toOption =
        ((Json.readItems (readValue budget inner) budget true more).map _).toOption.bind _
    rw [hfields, Except.toOption_map]
    cases (Json.readItems (readValue budget inner) budget true more).toOption <;> rfl

/-- The descriptor that is read straight where one stands. -/
theorem derives_read (hlimit : limit < budget) (levels : Nat) :
    Derives limit (read budget levels) field? (Field.read budget levels) := by
  intro cs hcs
  by_cases hobject : ∃ more, skipSpace cs = '{' :: more
  · obtain ⟨more, hspace⟩ := hobject
    rw [read_object hspace, Json.readObject, Field.read, Json.readFieldwise, hspace]
    cases levels with
    | zero => rfl
    | succ inner =>
      have hmembers := Json.derives_readMembers derives_readMember
        (shrinks_readWrittenMember budget inner) budget true {} more
        ((Json.length_of_skipSpace_cons hspace).le.trans hcs)
      show (Field.readMembers budget inner more).toOption =
        ((Json.readMembers _ budget true [] more).map _).toOption.bind _
      rw [readMembers_toOption, hmembers, Except.toOption_map]
      cases (Json.readMembers (collectMember (readWrittenMember budget inner)) budget true []
        more).toOption with
      | none => rfl
      | some found => cases h : found.1.foldlM Field.Draft.takeOnce {} <;> simp [field?, h]
  · rw [read_other (not_exists.1 hobject), Except.toOption_map]
    cases hspace : skipSpace cs with
    | nil =>
      rw [Field.read, Json.readFieldwise, readValue, hspace]
      rfl
    | cons c more =>
      have hbrace : c ≠ '{' := fun hc => hobject ⟨more, hc ▸ hspace⟩
      by_cases hlist : c = '['
      · subst hlist
        rw [read_list (hcs.trans_lt hlimit) hspace, Option.map_eq_bind, Option.bind_assoc]
        rfl
      · rw [Field.read, Json.readFieldwise, hspace]
        simp only [if_neg hbrace, if_neg hlist]
        cases hvalue : readValue budget levels cs with
        | error fault => rfl
        | ok found =>
          have hnone := field?_other (Json.ne_array_of_readValue hspace hlist hvalue)
            (Json.ne_object_of_readValue hspace hbrace hvalue)
          simp [Except.toOption, hnone]

end WrittenField

/-! ## Catalogs -/

/-- The descriptor in the value that is read where one stands. -/
def WrittenField.collected? (written : WrittenField) : Option Field :=
  written.toJson?.bind fun value => (Field.ofJson value).toOption

theorem toOption_fieldsOf (index : Nat) (items : List Json) :
    (Catalog.fieldsOf index items).toOption = items.mapM fun item => (Field.ofJson item).toOption := by
  induction items generalizing index with
  | nil => rfl
  | cons item items ih =>
    rw [Catalog.fieldsOf, List.mapM_cons, ← ih (index + 1)]
    cases Field.ofJson item with
    | error cause => rfl
    | ok field => cases Catalog.fieldsOf (index + 1) items <;> rfl

theorem mapM_bind_mapM {α β γ : Type} (f : α → Option β) (g : β → Option γ) (xs : List α) :
    (xs.mapM f).bind (List.mapM g) = xs.mapM fun x => (f x).bind g := by
  induction xs with
  | nil => rfl
  | cons x xs ih =>
    rw [List.mapM_cons, List.mapM_cons, ← ih]
    cases f x with
    | none => rfl
    | some y =>
      cases xs.mapM f with
      | none => cases g y <;> simp
      | some ys => simp [List.mapM_cons]

/-- The catalog in the value that a text holds. -/
theorem Catalog.parse_toOption (text : String) :
    (parse text).toOption = (writtenFields? text).bind fun fields =>
      (fields.mapM WrittenField.collected?).map Catalog.mk := by
  have hlist : (Json.parseList text).toOption = (Json.read text).toOption.bind Json.items? :=
    Json.readWhole_of_derives text fun limit => Json.derives_readList_items limit _ _
  have hwritten : (Json.parseList text).toOption =
      (writtenFields? text).bind (List.mapM WrittenField.toJson?) :=
    Json.readWhole_of_derives text fun limit =>
      Json.derives_readList (WrittenField.derives_readValue limit.lt_add_one)
        (WrittenField.shrinks_read _) _ _
  have hparse : (parse text).toOption = ((Json.parseList text).toOption.bind
      (List.mapM fun item => (Field.ofJson item).toOption)).map Catalog.mk := by
    rw [hlist, parse]
    cases Json.read text with
    | error e => rfl
    | ok value =>
      cases value with
      | array items =>
        show ((fieldsOf 0 items).map Catalog.mk).toOption = _
        rw [Except.toOption_map, toOption_fieldsOf]
        rfl
      | _ => rfl
  rw [hparse, hwritten, Option.bind_assoc]
  simp only [mapM_bind_mapM]
  cases writtenFields? text <;> rfl

/-- The catalog that is read straight from a text. -/
theorem Catalog.readText_toOption (text : String) :
    (readText text).toOption = (writtenFields? text).bind fun fields =>
      (fields.mapM WrittenField.field?).map Catalog.mk := by
  refine Json.readWhole_of_derives text fun limit cs hcs => ?_
  have hfields := (Json.derives_readList (WrittenField.derives_read limit.lt_add_one)
    (WrittenField.shrinks_read _) (limit + 1) Json.maxLevels).map Catalog.mk cs hcs
  rw [← hfields]
  show _ = ((Json.readList (limit + 1) Json.maxLevels (Field.read (limit + 1)) cs).map _).toOption
  cases Json.readList (limit + 1) Json.maxLevels (Field.read (limit + 1)) cs <;> rfl

end RecordQuery
