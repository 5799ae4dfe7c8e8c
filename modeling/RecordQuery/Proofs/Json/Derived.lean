/-
RecordQuery.Proofs.Json.Derived — one reader answers as another one does.

A typed reader and the reader of values go over the same text in two ways. They
are compared part by part: a reader is derived from a source if it finds what a
function makes of the finds of the source, leaves the same text, and fails where
the source fails or the function makes nothing of what was found. Which fault it
fails with is left open: the two stop at different places. The loops over items
and members hand the relation on from their entries to the whole, and so does
the list of fields that is read one by one.

The relation is asked for texts up to a limit only, since a value is skipped
within a budget of steps.

Main statements:
* `derives_readItems`, `derives_readMembers`, `derives_readList` — the loops;
* `derives_readString`, `derives_readOptional` — texts;
* `derivesItems_readNext`, `derivesItems_closeList` — the fields of a list, one after the other;
* `readWhole_of_derives` — whole texts.
-/
import RecordQuery.Proofs.Json.Skipped
import RecordQuery.Proofs.Json.Unambiguous

namespace RecordQuery.Json

variable {α β σ : Type} {budget levels limit : Nat} {c : Char} {cs more rest : List Char}

/-- A reader leaves no more than it was given. -/
def Shrinks (reader : Reader α) : Prop :=
  ∀ ⦃cs x rest⦄, reader cs = .ok (x, rest) → rest.length ≤ cs.length

/-- On texts of at most `limit` characters `reader` finds what `f` makes of the finds of `source`, and
leaves the same. -/
def Derives (limit : Nat) (source : Reader α) (f : α → Option β) (reader : Reader β) : Prop :=
  ∀ cs, cs.length ≤ limit → (reader cs).toOption =
    (source cs).toOption.bind fun found => (f found.1).map fun y => (y, found.2)

theorem shrinks_readValue (budget levels : Nat) : Shrinks (readValue budget levels) :=
  fun _ _ _ h => (goesOver_of_readValue h).length_le

theorem shrinks_skipValue (budget : Nat) : Shrinks (skipValue budget) := by
  intro cs _ rest h
  obtain ⟨behind, hbehind, heq⟩ := Except.map_eq_ok.1 h
  cases heq
  exact length_of_skipSteps hbehind

section Derives

variable {source : Reader α} {f : α → Option β} {reader : Reader β} {found : α × List Char} {y : β}

theorem Derives.of_error (h : Derives limit source f reader) (hcs : cs.length ≤ limit)
    {fault : Fault} (hx : source cs = .error fault) : ∃ fault, reader cs = .error fault := by
  rw [← Except.toOption_eq_none, h cs hcs, hx]
  rfl

theorem Derives.of_none (h : Derives limit source f reader) (hcs : cs.length ≤ limit)
    (hx : source cs = .ok found) (hy : f found.1 = none) : ∃ fault, reader cs = .error fault := by
  rw [← Except.toOption_eq_none, h cs hcs, hx, Except.toOption_ok, Option.bind_some, hy]
  rfl

theorem Derives.of_some (h : Derives limit source f reader) (hcs : cs.length ≤ limit)
    (hx : source cs = .ok found) (hy : f found.1 = some y) : reader cs = .ok (y, found.2) := by
  rw [← Except.toOption_eq_some, h cs hcs, hx, Except.toOption_ok, Option.bind_some, hy]
  rfl

theorem Derives.map {γ : Type} (h : Derives limit source f reader) (g : β → γ) :
    Derives limit source (fun x => (f x).map g) fun cs =>
      (reader cs).map fun found => (g found.1, found.2) := by
  intro cs hcs
  rw [Except.toOption_map, h cs hcs]
  cases source cs with
  | error fault => rfl
  | ok found => cases hy : f found.1 <;> simp [Except.toOption, hy]

theorem derives_self (source : Reader α) : Derives limit source some source := by
  intro cs _
  cases source cs <;> rfl

end Derives

/-! ## Lists and objects -/

theorem length_of_nextItem {first : Bool} {start : List Char}
    (h : nextItem first cs = .ok (.entry start)) : start.length ≤ cs.length := by
  obtain ⟨c, more, hspace, -, hstart⟩ := nextItem_eq_entry h
  have hmore := length_of_skipSpace_cons hspace
  cases first with
  | true =>
    rw [if_pos rfl] at hstart
    rw [hstart]
    exact hmore
  | false =>
    rw [if_neg (by decide)] at hstart
    rw [hstart.2]
    exact (length_dropWhile_le isSpace more).trans hmore.le

theorem length_of_nextKey {first : Bool} {start : List Char}
    (h : nextKey first cs = .ok (.entry start)) : start.length ≤ cs.length := by
  obtain ⟨c, more, hspace, -, hstart⟩ := nextKey_eq_entry h
  have hmore := length_of_skipSpace_cons hspace
  cases first with
  | true =>
    rw [if_pos rfl] at hstart
    rw [(List.cons.inj hstart).2]
    exact hmore.le
  | false =>
    rw [if_neg (by decide)] at hstart
    exact (length_of_skipSpace_cons hstart.2.symm).le.trans hmore.le

theorem length_of_readText {key : String} (h : readText cs = .ok (key, rest)) :
    rest.length ≤ cs.length :=
  (length_of_skipText (skipText_of_readText h)).le

section Loops

variable {item : Reader α} {item' : Reader β} {f : α → Option β}

/-- What becomes of the items of a list becomes of the list. -/
theorem derives_readItems (hitem : Derives limit item f item') (hshrinks : Shrinks item)
    (entries : Nat) (first : Bool) :
    Derives limit (readItems item entries first) (List.mapM f) (readItems item' entries first) := by
  induction entries generalizing first with
  | zero =>
    intro cs _
    rfl
  | succ entries ih =>
    intro cs hcs
    cases hnext : nextItem first cs with
    | error fault =>
      simp only [readItems, hnext]
      rfl
    | ok next =>
      cases next with
      | closed rest =>
        simp only [readItems, hnext]
        rfl
      | entry start =>
        have hstart := (length_of_nextItem hnext).trans hcs
        rw [readItems_entry hnext, readItems_entry hnext, Except.toOption_bind,
          Except.toOption_bind, hitem start hstart]
        cases hx : item start with
        | error fault => rfl
        | ok found =>
          have hrest := ih false found.2 ((hshrinks hx).trans hstart)
          cases hy : f found.1 with
          | none =>
            simp only [Except.toOption_map, Except.toOption_ok, Option.bind_some, hy,
              Option.map_none, Option.bind_none]
            cases (readItems item entries false found.2).toOption with
            | none => rfl
            | some more => simp [hy, List.mapM_cons]
          | some y =>
            simp only [Except.toOption_map, Except.toOption_ok, Option.bind_some, hy,
              Option.map_some, hrest]
            cases (readItems item entries false found.2).toOption with
            | none => rfl
            | some more => cases hmore : more.1.mapM f <;> simp [hy, hmore, List.mapM_cons]

variable {entry : String → Reader α} {member : σ → String → Reader σ} {state : σ}
  {step : σ → String × α → Option σ}

/-- Collects the members of an object in the order in which they are read. `entry` starts behind the
key. -/
def collectMember (entry : String → Reader α) (sofar : List (String × α)) (key : String) :
    Reader (List (String × α)) := fun cs =>
  (entry key cs).map fun found => (sofar ++ [(key, found.1)], found.2)

/-- What was collected before stands in front. -/
theorem readMembers_collectMember (entries : Nat) (first : Bool) (sofar : List (String × α))
    (cs : List Char) :
    readMembers (collectMember entry) entries first sofar cs =
      (readMembers (collectMember entry) entries first [] cs).map fun found =>
        (sofar ++ found.1, found.2) := by
  induction entries generalizing first sofar cs with
  | zero => rfl
  | succ entries ih =>
    rw [readMembers, readMembers]
    cases hnext : nextKey first cs with
    | error fault => rfl
    | ok next =>
      cases next with
      | closed rest => simp [Except.map]
      | entry start =>
        cases hkey : readText start with
        | error fault => simp only [hkey]; rfl
        | ok found =>
          obtain ⟨key, behind⟩ := found
          simp only [hkey, collectMember]
          cases entry key behind with
          | error fault => rfl
          | ok found =>
            simp only [Except.map]
            rw [ih, ih false ([] ++ _)]
            cases readMembers (collectMember entry) entries false [] found.2 with
            | error fault => rfl
            | ok more => simp [Except.map]

/-- A reader that takes the members one by one, as they are read. -/
theorem derives_readMembers
    (hmember : ∀ state key, Derives limit (entry key) (fun x => step state (key, x))
      (member state key))
    (hshrinks : ∀ key, Shrinks (entry key)) (entries : Nat) (first : Bool) (state : σ) :
    Derives limit (readMembers (collectMember entry) entries first []) (List.foldlM step state)
      (readMembers member entries first state) := by
  induction entries generalizing first state with
  | zero =>
    intro cs _
    rfl
  | succ entries ih =>
    intro cs hcs
    rw [readMembers, readMembers]
    cases hnext : nextKey first cs with
    | error fault => rfl
    | ok next =>
      cases next with
      | closed rest => rfl
      | entry start =>
        cases hkey : readText start with
        | error fault => simp only [hkey]; rfl
        | ok found =>
          obtain ⟨key, behind⟩ := found
          have hbehind : behind.length ≤ limit :=
            (length_of_readText hkey).trans ((length_of_nextKey hnext).trans hcs)
          have htaken := hmember state key
          simp only [hkey, collectMember]
          cases hx : entry key behind with
          | error fault =>
            obtain ⟨fault', hfault⟩ := htaken.of_error hbehind hx
            rw [hfault]
            rfl
          | ok found =>
            simp only [Except.map]
            rw [List.nil_append, readMembers_collectMember entries false [_], Except.toOption_map]
            cases hstep : step state (key, found.1) with
            | none =>
              obtain ⟨fault, hfault⟩ := htaken.of_none hbehind hx hstep
              rw [hfault]
              cases (readMembers (collectMember entry) entries false [] found.2).toOption with
              | none => rfl
              | some more => simp [hstep, Except.toOption_error]
            | some next =>
              rw [htaken.of_some hbehind hx hstep]
              have hrest := ih false next found.2 ((hshrinks key hx).trans hbehind)
              simp only [hrest]
              cases (readMembers (collectMember entry) entries false [] found.2).toOption with
              | none => rfl
              | some more => simp [hstep]

theorem shrinks_readMembers (hshrinks : ∀ state key, Shrinks (member state key)) (entries : Nat)
    (first : Bool) (state : σ) : Shrinks (readMembers member entries first state) := by
  intro cs last rest h
  replace h := readsMembers_of_readMembers h
  induction h with
  | closed hclosed => exact (length_of_skipSpace_cons (nextKey_eq_closed hclosed)).le
  | entry hnext hkey hmember _ ih =>
    exact ih.trans ((hshrinks _ _ hmember).trans
      ((length_of_readText hkey).trans (length_of_nextKey hnext)))

/-- What becomes of the items of a list becomes of the list, one level below. -/
theorem derives_readList {item : Nat → Reader α} {item' : Nat → Reader β}
    (hitem : ∀ inner, Derives limit (item inner) f (item' inner))
    (hshrinks : ∀ inner, Shrinks (item inner)) (budget levels : Nat) :
    Derives limit (readList budget levels item) (List.mapM f) (readList budget levels item') := by
  intro cs hcs
  rw [readList, readList]
  cases hspace : skipSpace cs with
  | nil => rfl
  | cons c more =>
    by_cases hc : c = '['
    · simp only [if_pos hc]
      cases levels with
      | zero => rfl
      | succ inner =>
        exact derives_readItems (hitem inner) (hshrinks inner) budget true more
          ((length_of_skipSpace_cons hspace).le.trans hcs)
    · simp only [if_neg hc]
      rfl

/-- What becomes of the answer to a whole text. -/
theorem readWhole_of_derives {source : Nat → Reader α} {reader : Nat → Reader β} (text : String)
    (h : ∀ limit, Derives limit (source (limit + 1)) f (reader (limit + 1))) :
    (readWhole reader text).toOption = (readWhole source text).toOption.bind f := by
  have htext := h text.toList.length
  rw [readWhole, readWhole]
  cases hx : source (text.toList.length + 1) text.toList with
  | error fault =>
    obtain ⟨fault', hfault⟩ := htext.of_error le_rfl hx
    simp only [hfault]
    rfl
  | ok found =>
    cases hy : f found.1 with
    | none =>
      obtain ⟨fault, hfault⟩ := htext.of_none le_rfl hx hy
      simp only [hfault]
      cases skipSpace found.2 <;> simp [Except.toOption, hy]
    | some y =>
      simp only [htext.of_some le_rfl hx hy]
      cases skipSpace found.2 <;> simp [Except.toOption, hy]

end Loops

/-! ## Texts -/

theorem text?_of_readValue {v : Json} (hspace : skipSpace cs = c :: more) (hc : c ≠ '"')
    (h : readValue budget levels cs = .ok (v, rest)) : v.text? = none := by
  cases finds_of_readValue hspace h with
  | string => exact absurd rfl hc
  | _ => rfl

theorem ne_array_of_readValue {v : Json} (hspace : skipSpace cs = c :: more) (hc : c ≠ '[')
    (h : readValue budget levels cs = .ok (v, rest)) (items : List Json) : v ≠ .array items := by
  rintro rfl
  cases finds_of_readValue hspace h
  exact hc rfl

theorem ne_object_of_readValue {v : Json} (hspace : skipSpace cs = c :: more) (hc : c ≠ '{')
    (h : readValue budget levels cs = .ok (v, rest)) (members : List (String × Json)) :
    v ≠ .object members := by
  rintro rfl
  cases finds_of_readValue hspace h
  exact hc rfl

/-- The reader of strings finds the texts among the values. -/
theorem derives_readString (limit budget levels : Nat) :
    Derives limit (readValue budget levels) text? readString := by
  intro cs _
  rw [readString]
  cases hspace : skipSpace cs with
  | nil =>
    rw [readValue, hspace]
    rfl
  | cons c more =>
    by_cases hc : c = '"'
    · subst hc
      rw [← readValue_skipSpace, hspace, readValue_string, Except.toOption_map]
      simp only [if_pos]
      cases (readText more).toOption <;> rfl
    · simp only [if_neg hc]
      cases hv : readValue budget levels cs with
      | error fault => rfl
      | ok found =>
        obtain ⟨v, rest⟩ := found
        simp [Except.toOption, text?_of_readValue hspace hc hv]

theorem readValue_null_word (cs : List Char) :
    readValue budget levels ('n' :: cs) =
      (readWord ['u', 'l', 'l'] cs).map fun rest => (.null, rest) := by
  rw [readValue, skipSpace_cons (by decide)]
  rfl

/-- What becomes of a value or null. -/
def orNull (f : Json → Option β) : Json → Option (Option β)
  | .null => some none
  | v => (f v).map some

theorem orNull_of_ne {f : Json → Option β} {v : Json} (h : v ≠ .null) :
    orNull f v = (f v).map some := by
  cases v with
  | null => exact absurd rfl h
  | _ => rfl

theorem derives_readOptional {f : Json → Option β} {reader : Reader β}
    (h : Derives limit (readValue budget levels) f reader) :
    Derives limit (readValue budget levels) (orNull f) (readOptional reader) := by
  intro cs hcs
  have hfirst := h (skipSpace cs) ((length_dropWhile_le isSpace cs).trans hcs)
  rw [readValue_skipSpace] at hfirst
  rw [readOptional.eq_def]
  split
  · rename_i more hspace
    rw [← readValue_skipSpace, hspace, readValue_null_word, Except.toOption_map,
      Except.toOption_map]
    cases (readWord ['u', 'l', 'l'] more).toOption <;> rfl
  · rename_i hother
    rw [Except.toOption_map, hfirst]
    cases hv : readValue budget levels cs with
    | error fault => rfl
    | ok found =>
      obtain ⟨v, rest⟩ := found
      have hnull : v ≠ .null := by
        rintro rfl
        obtain ⟨c, more, hspace, hfinds⟩ := exists_finds hv
        cases hfinds
        exact hother more hspace
      simp only [Except.toOption_ok, Option.bind_some, orNull_of_ne hnull]
      cases f v <;> rfl

/-! ## Lists of values -/

/-- The items of a list. -/
def items? : Json → Option (List Json)
  | .array items => some items
  | _ => none

/-- The reader of lists finds the lists among the values. -/
theorem derives_readList_items (limit budget levels : Nat) :
    Derives limit (readValue budget levels) items? (readList budget levels (readValue budget)) := by
  intro cs _
  cases hspace : skipSpace cs with
  | nil =>
    rw [readList, readValue, hspace]
    rfl
  | cons c more =>
    by_cases hc : c = '['
    · subst hc
      rw [readList, readValue, hspace]
      cases levels with
      | zero => rfl
      | succ inner =>
        show (readItems (readValue budget inner) budget true more).toOption =
          ((readItems (readValue budget inner) budget true more).map _).toOption.bind _
        rw [Except.toOption_map]
        cases (readItems (readValue budget inner) budget true more).toOption <;> rfl
    · rw [readList, hspace]
      simp only [if_neg hc]
      cases hv : readValue budget levels cs with
      | error fault => rfl
      | ok found =>
        obtain ⟨v, rest⟩ := found
        cases v with
        | array items => exact absurd rfl (ne_array_of_readValue hspace hc hv items)
        | _ => rfl

/-! ## Lists of fields -/

/-- On a list behind its bracket or behind some of its items, a reader finds what `f` makes of the
items that are left. -/
def DerivesItems (budget levels : Nat) (first : Bool) (f : List Json → Option β)
    (reader : Reader β) : Prop :=
  ∀ cs entries, cs.length < entries → cs.length ≤ budget → (reader cs).toOption =
    (readItems (readValue budget levels) entries first cs).toOption.bind fun found =>
      (f found.1).map fun y => (y, found.2)

section Fields

variable {entries : Nat} {first : Bool}

theorem DerivesItems.congr {f g : List Json → Option β} {reader : Reader β}
    (h : DerivesItems budget levels first f reader) (hfg : ∀ items, f items = g items) :
    DerivesItems budget levels first g reader :=
  funext hfg ▸ h

theorem nextItem_of_bracket (hspace : skipSpace cs = ']' :: rest) :
    nextItem first cs = .ok (.closed rest) := by
  rw [nextItem, hspace]
  rfl

theorem closeList_of_bracket (hspace : skipSpace cs = ']' :: rest) : closeList cs = .ok rest := by
  rw [closeList.eq_def, hspace]
  rfl

/-- No further item may come. -/
theorem derivesItems_closeList (y : β) :
    DerivesItems budget levels false (fun items => if items = [] then some y else none)
      fun cs => (closeList cs).map fun rest => (y, rest) := by
  intro cs entries hentries _
  obtain ⟨entries, rfl⟩ : ∃ n, entries = n + 1 := ⟨entries - 1, by omega⟩
  have hclose : (closeList cs).toOption = none ∨ ∃ rest, skipSpace cs = ']' :: rest := by
    rw [closeList.eq_def]
    grind [Except.toOption]
  cases hnext : nextItem false cs with
  | error fault =>
    rcases hclose with hclose | ⟨rest, hspace⟩
    · simp [readItems, hnext, Except.toOption_map, hclose, Except.toOption_error]
    · rw [nextItem_of_bracket hspace] at hnext
      cases hnext
  | ok next =>
    cases next with
    | closed rest =>
      have hrest := closeList_of_bracket (nextItem_eq_closed hnext)
      simp [readItems, hnext, hrest, Except.map, Except.toOption_ok]
    | entry start =>
      rcases hclose with hclose | ⟨rest, hspace⟩
      · rw [readItems_entry hnext, Except.toOption_map, hclose, Except.toOption_bind]
        cases readValue budget levels start with
        | error fault => rfl
        | ok found =>
          simp only [Except.toOption_ok, Option.bind_some, Except.toOption_map]
          cases (readItems (readValue budget levels) entries false found.2).toOption with
          | none => rfl
          | some more => simp
      · rw [nextItem_of_bracket hspace] at hnext
        cases hnext

/-- The next item, if there is one, and those behind it. -/
theorem derivesItems_readNext {f : Json → Option α} {reader : Reader α}
    (hreader : Derives budget (readValue budget levels) f reader)
    {next : Option α → Reader β} {g : Option α → List Json → Option β}
    (hnext : ∀ x, DerivesItems budget levels false (g x) (next x)) :
    DerivesItems budget levels first
      (fun items => match items with
        | [] => g none []
        | v :: vs => (f v).bind fun x => g (some x) vs)
      fun cs => (readNext first reader cs).bind fun found => next found.1 found.2 := by
  intro cs entries hentries hbudget
  obtain ⟨entries, rfl⟩ : ∃ n, entries = n + 1 := ⟨entries - 1, by omega⟩
  cases hitem : nextItem first cs with
  | error fault =>
    simp only [readNext, readItems, hitem]
    rfl
  | ok continuation =>
    cases continuation with
    | closed rest =>
      -- the closing bracket is still unread, and the reader of the next item meets it again
      have hagain := hnext none cs (entries + 1) hentries hbudget
      have hclosed : nextItem false cs = .ok (.closed rest) :=
        nextItem_of_bracket (nextItem_eq_closed hitem)
      simp only [readItems, hclosed] at hagain
      simp only [readNext, readItems, hitem]
      exact hagain
    | entry start =>
      have hstart := length_of_nextItem hitem
      simp only [readNext, hitem]
      rw [readItems_entry hitem, Except.toOption_bind, Except.toOption_map,
        hreader start (hstart.trans hbudget), Except.toOption_bind]
      cases hv : readValue budget levels start with
      | error fault => rfl
      | ok found =>
        obtain ⟨taken, htaken, -⟩ := goesOver_of_readValue hv
        simp only [Except.toOption_ok, Option.bind_some, Except.toOption_map]
        cases hx : f found.1 with
        | none =>
          cases (readItems (readValue budget levels) entries false found.2).toOption with
          | none => rfl
          | some more => simp [hx]
        | some x =>
          have hrest := hnext (some x) found.2 entries (by omega) (by omega)
          simp only [Option.map_some, Option.bind_some, hrest]
          cases (readItems (readValue budget levels) entries false found.2).toOption with
          | none => rfl
          | some more => simp [hx]

end Fields

end RecordQuery.Json
