/-
RecordQuery.Proofs.Json.Value — a written value is read back, in both layouts.

The reader returns a written value with each double in it read again
(`Json.reread`): words, strings, whole numbers and the shape come back as they
were, and only a double can come back as another one. It does so if the value
nests no deeper than the reader goes, and refuses the value otherwise.

Two things are asked of what stands around the value. Its objects list their
members in order of the keys (`Json.IsSorted`), as all that this library builds
do; and no number goes on behind it (`NumberEnd`).

Main definitions:
* `Json.nesting`, `Json.doubles`, `Json.reread`;
* `Json.IsSorted`.

Main statements:
* `Json.readValue_written` — reading what was written;
* `Json.IsSorted.reread_eq_self_iff` — nothing changes if and only if no double does.
-/
import RecordQuery.Json.Typed
import RecordQuery.Proofs.Json.Double
import RecordQuery.Proofs.Json.Entries
import RecordQuery.Proofs.Keyed

namespace RecordQuery

/-! ## What reading again makes of a value -/

/-- What the reader of JSON takes the JSON text of a double for. -/
def FiniteDouble.reread (x : FiniteDouble) : FiniteDouble :=
  match Json.read (String.ofList x.jsonChars) with
  | .ok (.number (.double y)) => y
  | _ => x

/-- The number with its double read again; whole numbers are kept. -/
def Number.reread : Number → Number
  | .whole n => .whole n
  | .double x => .double x.reread

namespace Json

mutual

/-- How deep lists and objects nest. -/
def nesting : Json → Nat
  | .array items => nestingItems items + 1
  | .object members => nestingMembers members + 1
  | .null | .bool _ | .number _ | .string _ => 0

/-- How deep some values nest. -/
def nestingItems : List Json → Nat
  | [] => 0
  | x :: xs => max (nesting x) (nestingItems xs)

/-- How deep the values of some members nest. -/
def nestingMembers : List (String × Json) → Nat
  | [] => 0
  | (_, x) :: members => max (nesting x) (nestingMembers members)

end

mutual

/-- The doubles in a value. -/
def doubles : Json → List FiniteDouble
  | .array items => doublesItems items
  | .object members => doublesMembers members
  | .number (.double x) => [x]
  | .null | .bool _ | .number (.whole _) | .string _ => []

/-- The doubles in some values. -/
def doublesItems : List Json → List FiniteDouble
  | [] => []
  | x :: xs => doubles x ++ doublesItems xs

/-- The doubles in the values of some members. -/
def doublesMembers : List (String × Json) → List FiniteDouble
  | [] => []
  | (_, x) :: members => doubles x ++ doublesMembers members

end

mutual

/-- The value with each double in it read again. -/
def reread : Json → Json
  | .array items => .array (rereadItems items)
  | .object members => .object (rereadMembers members)
  | .number n => .number n.reread
  | .null => .null
  | .bool b => .bool b
  | .string text => .string text

/-- The values with each double in them read again. -/
def rereadItems : List Json → List Json
  | [] => []
  | x :: xs => reread x :: rereadItems xs

/-- The members with each double in their values read again. -/
def rereadMembers : List (String × Json) → List (String × Json)
  | [] => []
  | (key, x) :: members => (key, reread x) :: rereadMembers members

end

/-- Every object in the value lists its members in order of the keys. -/
inductive IsSorted : Json → Prop
  | null : IsSorted .null
  | bool (b : Bool) : IsSorted (.bool b)
  | number (n : Number) : IsSorted (.number n)
  | string (text : String) : IsSorted (.string text)
  | array {items : List Json} (sorted : ∀ x ∈ items, IsSorted x) : IsSorted (.array items)
  | object {members : List (String × Json)} (increasing : Increasing members)
      (sorted : ∀ m ∈ members, IsSorted m.2) : IsSorted (.object members)

theorem isSorted_array_iff {items : List Json} :
    (array items).IsSorted ↔ ∀ x ∈ items, x.IsSorted :=
  ⟨fun h => by cases h; assumption, .array⟩

theorem isSorted_object_iff {members : List (String × Json)} :
    (object members).IsSorted ↔ Increasing members ∧ ∀ m ∈ members, m.2.IsSorted :=
  ⟨fun h => by cases h; exact ⟨by assumption, by assumption⟩, fun h => .object h.1 h.2⟩

mutual

/-- Whether a value is sorted is decided part by part. -/
def decideSorted : (v : Json) → Decidable v.IsSorted
  | .null => isTrue .null
  | .bool b => isTrue (.bool b)
  | .number n => isTrue (.number n)
  | .string text => isTrue (.string text)
  | .array items =>
    have := decideSortedItems items
    decidable_of_iff (∀ x ∈ items, x.IsSorted) isSorted_array_iff.symm
  | .object members =>
    have := decideSortedMembers members
    decidable_of_iff (Increasing members ∧ ∀ m ∈ members, m.2.IsSorted) isSorted_object_iff.symm

/-- Whether all of some values are sorted. -/
def decideSortedItems : (items : List Json) → Decidable (∀ x ∈ items, x.IsSorted)
  | [] => isTrue (List.forall_mem_nil _)
  | x :: xs =>
    have := decideSorted x
    have := decideSortedItems xs
    decidable_of_iff (x.IsSorted ∧ ∀ y ∈ xs, y.IsSorted) List.forall_mem_cons.symm

/-- Whether the values of all of some members are sorted. -/
def decideSortedMembers : (members : List (String × Json)) → Decidable (∀ m ∈ members, m.2.IsSorted)
  | [] => isTrue (List.forall_mem_nil _)
  | (_, x) :: members =>
    have := decideSorted x
    have := decideSortedMembers members
    decidable_of_iff (x.IsSorted ∧ ∀ m ∈ members, m.2.IsSorted)
      ⟨fun h => List.forall_mem_cons.2 h, fun h => List.forall_mem_cons.1 h⟩

end

instance : DecidablePred IsSorted := decideSorted

variable {levels budget : Nat} {rest cs : List Char} {c : Char}

/-! ## Parts -/

theorem nestingItems_le_iff {items : List Json} :
    nestingItems items ≤ levels ↔ ∀ x ∈ items, x.nesting ≤ levels := by
  induction items with
  | nil => simp [nestingItems]
  | cons x xs ih => simp [nestingItems, ih]

theorem nestingMembers_le_iff {members : List (String × Json)} :
    nestingMembers members ≤ levels ↔ ∀ m ∈ members, m.2.nesting ≤ levels := by
  induction members with
  | nil => simp [nestingMembers]
  | cons m members ih => simp [nestingMembers, ih]

theorem nesting_array_le_iff {items : List Json} :
    (array items).nesting ≤ levels + 1 ↔ ∀ x ∈ items, x.nesting ≤ levels := by
  rw [nesting, Nat.add_le_add_iff_right, nestingItems_le_iff]

theorem nesting_object_le_iff {members : List (String × Json)} :
    (object members).nesting ≤ levels + 1 ↔ ∀ m ∈ members, m.2.nesting ≤ levels := by
  rw [nesting, Nat.add_le_add_iff_right, nestingMembers_le_iff]

theorem mem_doublesItems {items : List Json} {d : FiniteDouble} :
    d ∈ doublesItems items ↔ ∃ x ∈ items, d ∈ x.doubles := by
  induction items with
  | nil => simp [doublesItems]
  | cons x xs ih => simp [doublesItems, ih]

theorem mem_doublesMembers {members : List (String × Json)} {d : FiniteDouble} :
    d ∈ doublesMembers members ↔ ∃ m ∈ members, d ∈ m.2.doubles := by
  induction members with
  | nil => simp [doublesMembers]
  | cons m members ih => simp [doublesMembers, ih]

theorem rereadItems_eq_map (items : List Json) : rereadItems items = items.map reread := by
  induction items with
  | nil => rfl
  | cons x xs ih => rw [rereadItems, ih]; rfl

theorem rereadMembers_eq_map (members : List (String × Json)) :
    rereadMembers members = members.map (mapEntry reread) := by
  induction members with
  | nil => rfl
  | cons m members ih => rw [rereadMembers, ih]; rfl

/-- A value comes back as it was if and only if every double in it does. -/
theorem IsSorted.reread_eq_self_iff {v : Json} (h : v.IsSorted) :
    v.reread = v ↔ ∀ x ∈ v.doubles, x.reread = x := by
  induction h with
  | null | bool | string => simp [reread, doubles]
  | number n => cases n <;> simp [reread, Number.reread, doubles]
  | array sorted ih =>
    simp only [reread, doubles, array.injEq, rereadItems_eq_map, map_eq_self_iff, mem_doublesItems]
    exact ⟨fun h d ⟨x, hx, hd⟩ => (ih x hx).1 (h x hx) d hd,
      fun h x hx => (ih x hx).2 fun d hd => h d ⟨x, hx, hd⟩⟩
  | object _ sorted ih =>
    simp only [reread, doubles, object.injEq, rereadMembers_eq_map, map_eq_self_iff,
      mem_doublesMembers]
    exact ⟨fun h d ⟨m, hm, hd⟩ => (ih m hm).1 (congrArg Prod.snd (h m hm)) d hd,
      fun h m hm => Prod.ext rfl ((ih m hm).2 fun d hd => h d ⟨m, hm, hd⟩)⟩

/-! ## Numbers -/

/-- What is read as a number begins with a digit. -/
theorem exists_digit_of_readNumber {negative : Bool} {result : Number × List Char}
    (h : readNumber negative cs = .ok result) : ∃ c more, cs = c :: more ∧ c.isDigit = true := by
  cases cs with
  | nil => simp [readNumber] at h
  | cons c more =>
    refine ⟨c, more, rfl, ?_⟩
    by_contra hc
    have hzero : c ≠ '0' := by rintro rfl; exact hc (by decide)
    simp [readNumber, hc, hzero] at h

theorem readValue_minus (cs : List Char) :
    readValue budget levels ('-' :: cs) =
      (readNumber true cs).map fun found => (.number found.1, found.2) := by
  simp [readValue, skipSpace, isSpace]

theorem isSpace_of_isDigit (hc : c.isDigit = true) : isSpace c = false := by
  have hspace := ne_of_isDigit hc (show Char.isDigit ' ' = false by decide)
  have hline := ne_of_isDigit hc (show Char.isDigit '\n' = false by decide)
  have htab := ne_of_isDigit hc (show Char.isDigit '\t' = false by decide)
  have hreturn := ne_of_isDigit hc (show Char.isDigit '\r' = false by decide)
  simp [isSpace, hspace, hline, htab, hreturn]

theorem readValue_digit (hc : c.isDigit = true) (cs : List Char) :
    readValue budget levels (c :: cs) =
      (readNumber false (c :: cs)).map fun found => (.number found.1, found.2) := by
  have hquote := ne_of_isDigit hc (show Char.isDigit '"' = false by decide)
  have hlist := ne_of_isDigit hc (show Char.isDigit '[' = false by decide)
  have hobject := ne_of_isDigit hc (show Char.isDigit '{' = false by decide)
  have hn := ne_of_isDigit hc (show Char.isDigit 'n' = false by decide)
  have ht := ne_of_isDigit hc (show Char.isDigit 't' = false by decide)
  have hf := ne_of_isDigit hc (show Char.isDigit 'f' = false by decide)
  have hminus := ne_of_isDigit hc (show Char.isDigit '-' = false by decide)
  rw [readValue, skipSpace_cons (isSpace_of_isDigit hc)]
  simp [hquote, hlist, hobject, hn, ht, hf, hminus, hc]

/-- A number that is read from its digits is read from its text. -/
theorem readValue_number {negative : Bool} {body : List Char} {n : Number}
    (h : readNumber negative (body ++ rest) = .ok (n, rest)) (budget levels : Nat) :
    readValue budget levels (signChars negative ++ (body ++ rest)) = .ok (.number n, rest) := by
  cases negative with
  | true =>
    rw [signChars, if_pos rfl, List.singleton_append, readValue_minus, h]
    rfl
  | false =>
    obtain ⟨c, more, hcs, hc⟩ := exists_digit_of_readNumber h
    rw [signChars, if_neg (by decide), List.nil_append, hcs, readValue_digit hc, ← hcs, h]
    rfl

/-- The text of a double is read as a double, the same one wherever it stands. -/
theorem exists_read_double (x : FiniteDouble) :
    ∃ y, Json.read (String.ofList x.jsonChars) = .ok (.number (.double y)) ∧
      ∀ rest, NumberEnd rest → readNumber x.negative
        ((x.magnitude.shortest .toEven).jsonChars ++ rest) = .ok (.double y, rest) := by
  obtain ⟨magnitude, hread⟩ := exists_readNumber_shortest x.magnitude
  refine ⟨⟨x.negative, magnitude⟩, ?_, hread x.negative⟩
  have hvalue := readValue_number (hread x.negative [] numberEnd_nil) (x.jsonChars.length + 1)
    maxLevels
  rw [List.append_nil, ← FiniteDouble.jsonChars_eq] at hvalue
  simp only [Json.read, readWhole, String.toList_ofList, hvalue]
  rfl

theorem read_jsonChars (x : FiniteDouble) :
    Json.read (String.ofList x.jsonChars) = .ok (.number (.double x.reread)) := by
  obtain ⟨y, hy, _⟩ := exists_read_double x
  rw [FiniteDouble.reread, hy]

/-- The text of a double is read as what it is read as alone. -/
theorem readNumber_reread (x : FiniteDouble) (hrest : NumberEnd rest) :
    readNumber x.negative ((x.magnitude.shortest .toEven).jsonChars ++ rest) =
      .ok (.double x.reread, rest) := by
  obtain ⟨y, hy, hread⟩ := exists_read_double x
  rw [hread rest hrest, FiniteDouble.reread, hy]

theorem reread_eq_self_iff_read (x : FiniteDouble) :
    x.reread = x ↔ Json.read (String.ofList x.jsonChars) = .ok (.number (.double x)) := by
  rw [read_jsonChars]
  simp

/-- The text of a number, as a sign and what the reader makes of the rest. -/
theorem exists_numberChars (n : Number) :
    ∃ negative body, numberChars n = signChars negative ++ body ∧
      ∀ rest, NumberEnd rest → readNumber negative (body ++ rest) = .ok (n.reread, rest) := by
  cases n with
  | whole n => exact ⟨_, _, rfl, fun rest hrest => readNumber_natAbs n hrest⟩
  | double x => exact ⟨_, _, x.jsonChars_eq, fun rest hrest => readNumber_reread x hrest⟩

/-! ## The first character -/

/-- A number begins with its sign or with a digit. -/
theorem exists_numberStart (n : Number) :
    ∃ c more, numberChars n = c :: more ∧ (c = '-' ∨ c.isDigit = true) := by
  obtain ⟨negative, body, hchars, hread⟩ := exists_numberChars n
  rw [hchars]
  cases negative with
  | true => exact ⟨'-', body, rfl, .inl rfl⟩
  | false =>
    have hread := hread [] numberEnd_nil
    rw [List.append_nil] at hread
    obtain ⟨c, more, hcs, hc⟩ := exists_digit_of_readNumber hread
    exact ⟨c, more, hcs, .inr hc⟩

theorem valueStart_numberChars (n : Number) : ValueStart (numberChars n) := by
  obtain ⟨c, more, hchars, rfl | hc⟩ := exists_numberStart n
  · exact ⟨'-', more, hchars, by decide, by decide⟩
  · exact ⟨c, more, hchars, isSpace_of_isDigit hc, ne_of_isDigit hc (by decide)⟩

theorem valueStart_chars (layout : Layout) (depth : Nat) (v : Json) :
    ValueStart (chars layout depth v) := by
  rcases v with _ | _ | n | text | items | members
  · exact ⟨'n', _, rfl, by decide, by decide⟩
  · rename_i b
    cases b with
    | false => exact ⟨'f', _, rfl, by decide, by decide⟩
    | true => exact ⟨'t', _, rfl, by decide, by decide⟩
  · exact valueStart_numberChars n
  · exact ⟨'"', _, rfl, by decide, by decide⟩
  · cases items <;> exact ⟨'[', _, rfl, by decide, by decide⟩
  · cases members <;> exact ⟨'{', _, rfl, by decide, by decide⟩

/-! ## Lists and objects -/

variable {layout : Layout} {depth : Nat}

theorem itemChars_eq (xs : List Json) :
    itemChars layout depth xs = commaChars (layout.lineBreak depth) (chars layout depth) xs := by
  induction xs with
  | nil => rfl
  | cons x xs ih => rw [itemChars, commaChars_cons, ih]

theorem memberChars_eq (members : List (String × Json)) :
    memberChars layout depth members =
      commaChars (layout.lineBreak depth) (memberText layout.afterColon (chars layout depth))
        members := by
  induction members with
  | nil => rfl
  | cons m members ih =>
    rw [memberChars, commaChars_cons, ih]
    simp [memberText]

/-- The text of a list with items, up to what stands behind it. -/
theorem chars_array (x : Json) (xs : List Json) (rest : List Char) :
    chars layout depth (.array (x :: xs)) ++ rest =
      '[' :: (layout.lineBreak (depth + 1) ++ (chars layout (depth + 1) x ++
        (commaChars (layout.lineBreak (depth + 1)) (chars layout (depth + 1)) xs ++
          (layout.lineBreak depth ++ ']' :: rest)))) := by
  rw [chars, itemChars_eq]
  simp

/-- The text of an object with members, up to what stands behind it. -/
theorem chars_object (m : String × Json) (members : List (String × Json)) (rest : List Char) :
    chars layout depth (.object (m :: members)) ++ rest =
      '{' :: (layout.lineBreak (depth + 1) ++
        (memberText layout.afterColon (chars layout (depth + 1)) m ++
          (commaChars (layout.lineBreak (depth + 1))
              (memberText layout.afterColon (chars layout (depth + 1))) members ++
            (layout.lineBreak depth ++ '}' :: rest)))) := by
  rw [chars, memberChars_eq]
  simp [memberText]

theorem length_lt_array (layout : Layout) (depth : Nat) (items : List Json) :
    items.length < (chars layout depth (.array items)).length := by
  cases items with
  | nil => exact Nat.succ_pos _
  | cons x xs =>
    have hitems := length_le_commaChars (layout.lineBreak (depth + 1)) (chars layout (depth + 1)) xs
    rw [← List.append_nil (chars layout depth _), chars_array]
    simp only [List.length_cons, List.length_append]
    omega

theorem length_item_le {x : Json} {items : List Json} (h : x ∈ items) :
    (chars layout (depth + 1) x).length ≤ (chars layout depth (.array items)).length := by
  cases items with
  | nil => cases h
  | cons y ys =>
    rw [← List.append_nil (chars layout depth _), chars_array]
    simp only [List.length_cons, List.length_append]
    rcases List.mem_cons.1 h with rfl | h
    · omega
    · have := length_text_le_commaChars (layout.lineBreak (depth + 1)) (chars layout (depth + 1)) h
      omega

theorem length_lt_object (layout : Layout) (depth : Nat) (members : List (String × Json)) :
    members.length < (chars layout depth (.object members)).length := by
  cases members with
  | nil => exact Nat.succ_pos _
  | cons m members =>
    have hmembers := length_le_commaChars (layout.lineBreak (depth + 1))
      (memberText layout.afterColon (chars layout (depth + 1))) members
    rw [← List.append_nil (chars layout depth _), chars_object]
    simp only [List.length_cons, List.length_append]
    omega

theorem length_member_le {m : String × Json} {members : List (String × Json)} (h : m ∈ members) :
    (chars layout (depth + 1) m.2).length ≤ (chars layout depth (.object members)).length := by
  have htext : ∀ n : String × Json, (chars layout (depth + 1) n.2).length ≤
      (memberText layout.afterColon (chars layout (depth + 1)) n).length := by
    intro n
    simp only [memberText, List.length_append, List.length_cons]
    omega
  cases members with
  | nil => cases h
  | cons n members =>
    have hm := htext m
    rw [← List.append_nil (chars layout depth _), chars_object]
    simp only [List.length_cons, List.length_append]
    rcases List.mem_cons.1 h with rfl | h
    · omega
    · have := length_text_le_commaChars (layout.lineBreak (depth + 1))
        (memberText layout.afterColon (chars layout (depth + 1))) h
      omega

section Typed

variable {α β σ τ : Type} {toJson : α → Json}

/-- A written list, read by a reader of lists: each item has to fit one level further in. -/
theorem readList_written (hlayout : layout.IsBlank) (xs : List α) {item : Nat → Reader β}
    {reading : α → β} {ok : Nat → α → Prop}
    (hitem : ∀ inner, ∀ x ∈ xs, ∀ rest, NumberEnd rest → ReadsIf (ok inner x) (reading x) rest
      (item inner (chars layout (depth + 1) (toJson x) ++ rest)))
    (hbudget : (chars layout depth (.array (xs.map toJson))).length ≤ budget) (levels : Nat)
    (rest : List Char) :
    ReadsIf (∃ inner, levels = inner + 1 ∧ ∀ x ∈ xs, ok inner x) (xs.map reading) rest
      (readList budget levels item (chars layout depth (.array (xs.map toJson)) ++ rest)) := by
  have hlength : xs.length < budget := by
    have := length_lt_array layout depth (xs.map toJson)
    rw [List.length_map] at this
    omega
  have hbracket : ∀ cs, skipSpace ('[' :: cs) = '[' :: cs := skipSpace_cons (by decide)
  cases levels with
  | zero =>
    obtain ⟨more, hmore⟩ : ∃ more, chars layout depth (.array (xs.map toJson)) = '[' :: more := by
      cases xs <;> exact ⟨_, rfl⟩
    refine .of_error (.next .tooDeep ('[' :: (more ++ rest))) ?_ (by simp)
    rw [hmore, List.cons_append, readList, hbracket]
    rfl
  | succ inner =>
    have hfits : (∀ x ∈ xs, ok inner x) ↔ ∃ n, inner + 1 = n + 1 ∧ ∀ x ∈ xs, ok n x := by simp
    refine ReadsIf.congr ?_ hfits
    cases xs with
    | nil =>
      refine .of_ok ?_ (by simp)
      obtain ⟨budget, rfl⟩ : ∃ n, budget = n + 1 := ⟨budget - 1, by simp at hlength; omega⟩
      show readList (budget + 1) (inner + 1) item ('[' :: ([] ++ ']' :: rest)) = _
      rw [readList, hbracket]
      exact readItems_close (item inner) budget true (List.forall_mem_nil _)
    | cons x xs =>
      rw [List.map_cons (f := toJson), chars_array, commaChars_map, readList, hbracket]
      exact readItems_written (hlayout.lineBreak _) (hlayout.lineBreak _) x xs
        (fun y _ => valueStart_chars ..) (hitem inner) hlength

/-- A written object, read by a reader of objects: each member has to fit one level further in. -/
theorem readObject_written (hlayout : layout.IsBlank) (members : List (String × α))
    {member : Nat → σ → String → Reader σ} {step : τ → String × α → τ} {embed : τ → σ}
    {ok : Nat → String × α → Prop} (initial : τ)
    (hmember : ∀ inner, ∀ m ∈ members, ∀ state rest, NumberEnd rest →
      ReadsIf (ok inner m) (embed (step state m)) rest (member inner (embed state) m.1
        (':' :: (layout.afterColon ++ (chars layout (depth + 1) (toJson m.2) ++ rest)))))
    (hbudget : (chars layout depth (.object (members.map (mapEntry toJson)))).length ≤ budget)
    (levels : Nat) (wanted : String) (rest : List Char) :
    ReadsIf (∃ inner, levels = inner + 1 ∧ ∀ m ∈ members, ok inner m)
      (embed (members.foldl step initial)) rest
      (readObject budget levels wanted (embed initial) member
        (chars layout depth (.object (members.map (mapEntry toJson))) ++ rest)) := by
  have hlength : members.length < budget := by
    have := length_lt_object layout depth (members.map (mapEntry toJson))
    rw [List.length_map] at this
    omega
  have hbrace : ∀ cs, skipSpace ('{' :: cs) = '{' :: cs := skipSpace_cons (by decide)
  cases levels with
  | zero =>
    obtain ⟨more, hmore⟩ :
        ∃ more, chars layout depth (.object (members.map (mapEntry toJson))) = '{' :: more := by
      cases members <;> exact ⟨_, rfl⟩
    refine .of_error (.next .tooDeep ('{' :: (more ++ rest))) ?_ (by simp)
    rw [hmore, List.cons_append, readObject, hbrace]
    rfl
  | succ inner =>
    have hfits : (∀ m ∈ members, ok inner m) ↔
        ∃ n, inner + 1 = n + 1 ∧ ∀ m ∈ members, ok n m := by simp
    refine ReadsIf.congr ?_ hfits
    cases members with
    | nil =>
      refine .of_ok ?_ (by simp)
      obtain ⟨budget, rfl⟩ : ∃ n, budget = n + 1 := ⟨budget - 1, by simp at hlength; omega⟩
      show readObject (budget + 1) (inner + 1) wanted (embed initial) member
        ('{' :: ([] ++ '}' :: rest)) = _
      rw [readObject, hbrace]
      exact readMembers_close (member inner) budget true (embed initial) (List.forall_mem_nil _)
    | cons m members =>
      rw [List.map_cons, chars_object, commaChars_map, readObject, hbrace]
      let text (x : α) : List Char := chars layout (depth + 1) (toJson x)
      show ReadsIf _ _ _ (readMembers (member inner) budget true (embed initial)
        (_ ++ (memberText layout.afterColon text m ++
          (commaChars _ (memberText layout.afterColon text) members ++ _))))
      exact readMembers_written (hlayout.lineBreak _) (hlayout.lineBreak _) m members initial
        (hmember inner) hlength

end Typed

/-! ## Values -/

theorem readValue_null (rest : List Char) :
    readValue budget levels ('n' :: 'u' :: 'l' :: 'l' :: rest) = .ok (.null, rest) := by
  simp [readValue, skipSpace, isSpace, readWord, Except.map]

theorem readValue_false (rest : List Char) :
    readValue budget levels ('f' :: 'a' :: 'l' :: 's' :: 'e' :: rest) = .ok (.bool false, rest) := by
  simp [readValue, skipSpace, isSpace, readWord, Except.map]

theorem readValue_true (rest : List Char) :
    readValue budget levels ('t' :: 'r' :: 'u' :: 'e' :: rest) = .ok (.bool true, rest) := by
  simp [readValue, skipSpace, isSpace, readWord, Except.map]

theorem readValue_string (cs : List Char) :
    readValue budget levels ('"' :: cs) =
      (readText cs).map fun found => (.string found.1, found.2) := by
  simp [readValue, skipSpace, isSpace]

theorem readValue_list (cs : List Char) :
    readValue budget levels ('[' :: cs) =
      (readList budget levels (readValue budget) ('[' :: cs)).map fun found =>
        (.array found.1, found.2) := by
  have hbracket : skipSpace ('[' :: cs) = '[' :: cs := skipSpace_cons (by decide) cs
  rw [readValue, readList, hbracket]
  cases levels <;> rfl

/-- A member of an object of any values: the value goes under its key. -/
def readEntry (budget levels : Nat) (sofar : List (String × Json)) (key : String) :
    Reader (List (String × Json)) := fun cs => do
  let (value, rest) ← readValue budget levels (← readColon cs)
  .ok (putEntry key value sofar, rest)

theorem readValue_object (cs : List Char) (wanted : String) :
    readValue budget levels ('{' :: cs) =
      (readObject budget levels wanted [] (readEntry budget) ('{' :: cs)).map fun found =>
        (.object found.1, found.2) := by
  have hbrace : skipSpace ('{' :: cs) = '{' :: cs := skipSpace_cons (by decide) cs
  rw [readValue, readObject, hbrace]
  cases levels <;> rfl

theorem nesting_array_le_iff_exists {items : List Json} :
    (array items).nesting ≤ levels ↔
      ∃ inner, levels = inner + 1 ∧ ∀ x ∈ items, x.nesting ≤ inner := by
  cases levels with
  | zero => simp [nesting]
  | succ inner => simp [nesting_array_le_iff]

theorem nesting_object_le_iff_exists {members : List (String × Json)} :
    (object members).nesting ≤ levels ↔
      ∃ inner, levels = inner + 1 ∧ ∀ m ∈ members, m.2.nesting ≤ inner := by
  cases levels with
  | zero => simp [nesting]
  | succ inner => simp [nesting_object_le_iff]

theorem readValue_blank {blank : List Char} (hblank : ∀ c ∈ blank, isSpace c = true)
    (cs : List Char) : readValue budget levels (blank ++ cs) = readValue budget levels cs :=
  readValue_congr (skipSpace_append hblank cs)

theorem readEntry_written (hlayout : layout.IsBlank) {fits : Prop} {value : Json} {text : List Char}
    (h : ReadsIf fits value rest (readValue budget levels (text ++ rest)))
    (sofar : List (String × Json)) (key : String) :
    ReadsIf fits (putEntry key value sofar) rest
      (readEntry budget levels sofar key (':' :: (layout.afterColon ++ (text ++ rest)))) := by
  have hvalue : readEntry budget levels sofar key (':' :: (layout.afterColon ++ (text ++ rest))) =
      (readValue budget levels (text ++ rest)).map fun found =>
        (putEntry key found.1 sofar, found.2) := by
    rw [readEntry, readColon_written]
    show (readValue budget levels (layout.afterColon ++ (text ++ rest))).bind _ = _
    rw [readValue_blank hlayout.afterColon]
    cases readValue budget levels (text ++ rest) <;> rfl
  rw [hvalue]
  exact h.map fun value => putEntry key value sofar

/-- A written list is read item by item: each has to fit one level further in. -/
theorem readValue_array_written {α : Type} (toJson : α → Json) {reading : α → Json}
    {ok : Nat → α → Prop} (hlayout : layout.IsBlank) (xs : List α)
    (hitem : ∀ inner, ∀ x ∈ xs, ∀ rest, NumberEnd rest → ReadsIf (ok inner x) (reading x) rest
      (readValue budget inner (chars layout (depth + 1) (toJson x) ++ rest)))
    (hbudget : (chars layout depth (.array (xs.map toJson))).length ≤ budget) (levels : Nat)
    (rest : List Char) :
    ReadsIf (∃ inner, levels = inner + 1 ∧ ∀ x ∈ xs, ok inner x) (.array (xs.map reading)) rest
      (readValue budget levels (chars layout depth (.array (xs.map toJson)) ++ rest)) := by
  have hitems := readList_written hlayout xs hitem hbudget levels rest
  obtain ⟨more, hmore⟩ : ∃ more, chars layout depth (.array (xs.map toJson)) = '[' :: more := by
    cases xs <;> exact ⟨_, rfl⟩
  rw [hmore] at hitems
  rw [hmore, List.cons_append, readValue_list]
  exact hitems.map array

/-- A written object is read member by member: each value goes under its key, in whatever order the
members are written. -/
theorem readValue_object_written (reading : Json → Json) (ok : Nat → Json → Prop)
    (hlayout : layout.IsBlank) (members : List (String × Json))
    (hmember : ∀ inner, ∀ m ∈ members, ∀ rest, NumberEnd rest →
      ReadsIf (ok inner m.2) (reading m.2) rest
        (readValue budget inner (chars layout (depth + 1) m.2 ++ rest)))
    (hbudget : (chars layout depth (.object members)).length ≤ budget) (levels : Nat)
    (rest : List Char) :
    ReadsIf (∃ inner, levels = inner + 1 ∧ ∀ m ∈ members, ok inner m.2)
      (.object (members.foldl (fun sofar m => putEntry m.1 (reading m.2) sofar) [])) rest
      (readValue budget levels (chars layout depth (.object members) ++ rest)) := by
  have hmembers : ReadsIf (∃ inner, levels = inner + 1 ∧ ∀ m ∈ members, ok inner m.2)
      (id (members.foldl (fun sofar m => putEntry m.1 (reading m.2) sofar) [])) rest
      (readObject budget levels "a map" (id []) (readEntry budget)
        (chars layout depth (.object (members.map (mapEntry id))) ++ rest)) :=
    readObject_written hlayout members []
      (fun inner m hm state rest hrest => readEntry_written hlayout
        (hmember inner m hm rest hrest) state m.1)
      (by rwa [mapEntry_id, List.map_id]) levels "a map" rest
  obtain ⟨more, hmore⟩ : ∃ more, chars layout depth (.object members) = '{' :: more := by
    cases members <;> exact ⟨_, rfl⟩
  rw [mapEntry_id, List.map_id, hmore, id, id] at hmembers
  rw [hmore, List.cons_append, readValue_object _ "a map"]
  exact hmembers.map object

/-- A written value is read back, with its doubles read again, if it nests no deeper than the
reader goes; otherwise it is refused. The induction is on the proof that the value is sorted, which
goes along with the levels of the text. -/
theorem readValue_written (hlayout : layout.IsBlank) {v : Json} (hsorted : v.IsSorted)
    (hbudget : (chars layout depth v).length ≤ budget) (levels : Nat) (hrest : NumberEnd rest) :
    ReadsIf (v.nesting ≤ levels) v.reread rest
      (readValue budget levels (chars layout depth v ++ rest)) := by
  induction hsorted generalizing depth levels rest with
  | null => exact .of_ok (readValue_null rest) (Nat.zero_le _)
  | bool b =>
    cases b with
    | false => exact .of_ok (readValue_false rest) (Nat.zero_le _)
    | true => exact .of_ok (readValue_true rest) (Nat.zero_le _)
  | number n =>
    obtain ⟨negative, body, hchars, hread⟩ := exists_numberChars n
    refine .of_ok ?_ (Nat.zero_le _)
    rw [chars, hchars, List.append_assoc]
    exact readValue_number (hread rest hrest) budget levels
  | string text =>
    refine .of_ok ?_ (Nat.zero_le _)
    rw [chars, stringChars, List.cons_append, List.append_assoc, List.singleton_append,
      readValue_string, readText_stringChars]
    rfl
  | @array items _ ih =>
    have hitems := readValue_array_written id hlayout items
      (fun inner x hx rest hrest => ih x hx (Nat.le_trans (length_item_le hx) hbudget) inner hrest)
      (by simpa using hbudget) levels rest
    rw [List.map_id] at hitems
    rw [reread, rereadItems_eq_map]
    exact hitems.congr nesting_array_le_iff_exists.symm
  | @object members hincreasing _ ih =>
    have hmembers := readValue_object_written reread (fun inner v => v.nesting ≤ inner) hlayout
      members
      (fun inner m hm rest hrest =>
        ih m hm (Nat.le_trans (length_member_le hm) hbudget) inner hrest)
      hbudget levels rest
    rw [foldl_putEntry reread members [] ((increasing_map reread).2 hincreasing)] at hmembers
    rw [reread, rereadMembers_eq_map]
    exact hmembers.congr nesting_object_le_iff_exists.symm

/-! ## Whole texts -/

theorem readWhole_ofList {α : Type} (reader : Nat → Reader α) (cs : List Char) :
    readWhole reader (String.ofList cs) =
      match reader (cs.length + 1) cs with
      | .error fault => .error (fault.inText cs)
      | .ok (x, rest) =>
        match skipSpace rest with
        | [] => .ok x
        | rest => .error ((Fault.next .trailingCharacters rest).inText cs) := by
  unfold readWhole
  generalize hchars : (String.ofList cs).toList = chars
  obtain rfl : cs = chars := String.toList_ofList.symm.trans hchars
  rfl

/-- A written text is accepted if the value fits, and refused otherwise. -/
theorem readWhole_written {α : Type} {fits : Prop} {value : α} {text : List Char}
    {reader : Nat → Reader α} (h : ReadsIf fits value [] (reader (text.length + 1) text)) :
    (fits → readWhole reader (String.ofList text) = .ok value) ∧
      (¬fits → ∃ e, readWhole reader (String.ofList text) = .error e) := by
  constructor
  · intro hfits
    rw [readWhole_ofList, h.ok hfits]
    rfl
  · intro hfits
    obtain ⟨fault, hfault⟩ := h.error hfits
    exact ⟨fault.inText text, by rw [readWhole_ofList, hfault]⟩

/-- A written value that nests no deeper than the reader goes is read with its doubles read again. -/
theorem read_written (hlayout : layout.IsBlank) {v : Json} (hsorted : v.IsSorted)
    (hnesting : v.nesting ≤ maxLevels) : read (String.ofList (chars layout 0 v)) = .ok v.reread := by
  have h := readValue_written hlayout hsorted (Nat.le_succ (chars layout 0 v).length) maxLevels
    numberEnd_nil
  rw [List.append_nil] at h
  exact (readWhole_written h).1 hnesting

end Json

end RecordQuery
