/-
RecordQuery.Proofs.Json.Unambiguous — compact text determines the value.

Where a written value ends can be seen from the text, and the text up to there
is the text of no other value. This holds of values of every shape, also where
reading them back would miss the last bit of a double, because two doubles never
have one text.

Whatever is written entry by entry inherits this from its entries: the text
between two entries, the separator, cannot be mistaken for the character that
closes. This is stated for entries of any kind and for what is to be known of
them (`Unambiguous`), because lists and objects are not the only things that are
written in this way.

Main definitions:
* `Unambiguous`, `separated`, `enclosed`.

Main statements:
* `separated_inj`, `enclosed_inj` — from the entries to the whole;
* `Json.numberChars_append_inj`, `Json.stringChars_append_inj`;
* `Json.chars_append_inj` — the compact text of a value.
-/
import RecordQuery.Proofs.Double.Numeral
import RecordQuery.Proofs.Json.Value

namespace RecordQuery

variable {α β : Type} {r s : List Char}

/-! ## Texts up to a boundary -/

/-- Two texts of characters of one class are equal if they are followed by characters of another. -/
theorem append_inj_of_class {p : Char → Bool} {cs ds : List Char}
    (hcs : ∀ c ∈ cs, p c = true) (hds : ∀ c ∈ ds, p c = true)
    (hr : ∀ c ∈ r.head?, p c = false) (hs : ∀ c ∈ s.head?, p c = false)
    (h : cs ++ r = ds ++ s) : cs = ds ∧ r = s := by
  induction cs generalizing ds with
  | nil =>
    cases ds with
    | nil => exact ⟨rfl, h⟩
    | cons d ds =>
      have hd := hr d (by rw [← List.nil_append r, h]; rfl)
      rw [hds d List.mem_cons_self] at hd
      cases hd
  | cons c cs ih =>
    cases ds with
    | nil =>
      have hc := hs c (by rw [← List.nil_append s, ← h]; rfl)
      rw [hcs c List.mem_cons_self] at hc
      cases hc
    | cons d ds =>
      obtain ⟨rfl, htail⟩ := List.cons.inj h
      obtain ⟨rfl, hrest⟩ := ih (fun e he => hcs e (List.mem_cons_of_mem _ he))
        (fun e he => hds e (List.mem_cons_of_mem _ he)) htail
      exact ⟨rfl, hrest⟩

/-! ## Entries -/

/-- The text of an entry, up to where texts of such entries can end, belongs to no other of the
entries in question, as far as `key` tells them apart. -/
def Unambiguous (ends : List Char → Prop) (ok : α → Prop) (text : α → List Char) (key : α → β)
    (x : α) : Prop :=
  ∀ y, ok y → ∀ r s, ends r → ends s → text x ++ r = text y ++ s → key x = key y ∧ r = s

/-- The texts of some entries, each with the separator in front. -/
def separated (separator : List Char) (text : α → List Char) (xs : List α) : List Char :=
  xs.flatMap fun x => separator ++ text x

/-- The texts of some entries with the separator between them. -/
def enclosed (separator : List Char) (text : α → List Char) : List α → List Char
  | [] => []
  | x :: xs => text x ++ separated separator text xs

theorem separated_cons (separator : List Char) (text : α → List Char) (x : α) (xs : List α) :
    separated separator text (x :: xs) ++ r =
      separator ++ (text x ++ (separated separator text xs ++ r)) := by
  simp [separated]

section Entries

variable {ends : List Char → Prop} {ok : α → Prop} {text : α → List Char} {key : α → β}
  {separator : List Char} {close : Char}

/-- Behind an entry comes the separator or the character that closes. -/
theorem ends_separated (hseparator : ∀ t, ends (separator ++ t)) (hclose : ∀ t, ends (close :: t))
    (xs : List α) (r : List Char) : ends (separated separator text xs ++ close :: r) := by
  cases xs with
  | nil => exact hclose r
  | cons x xs =>
    rw [separated_cons]
    exact hseparator _

/-- Entries with a separator in front are told apart by their text up to the closing character. -/
theorem separated_inj (hseparator : ∀ t, ends (separator ++ t)) (hclose : ∀ t, ends (close :: t))
    (hne : ∀ t u, separator ++ t ≠ close :: u) {xs ys : List α}
    (hxs : ∀ x ∈ xs, Unambiguous ends ok text key x) (hys : ∀ y ∈ ys, ok y)
    (h : separated separator text xs ++ close :: r = separated separator text ys ++ close :: s) :
    xs.map key = ys.map key ∧ r = s := by
  induction xs generalizing ys with
  | nil =>
    cases ys with
    | nil => exact ⟨rfl, List.tail_eq_of_cons_eq h⟩
    | cons y ys =>
      rw [separated_cons] at h
      exact absurd h.symm (hne _ _)
  | cons x xs ih =>
    cases ys with
    | nil =>
      rw [separated_cons] at h
      exact absurd h (hne _ _)
    | cons y ys =>
      rw [separated_cons, separated_cons] at h
      obtain ⟨hkey, hrest⟩ := hxs x List.mem_cons_self y (hys y List.mem_cons_self) _ _
        (ends_separated hseparator hclose xs r) (ends_separated hseparator hclose ys s)
        (List.append_cancel_left h)
      obtain ⟨hkeys, hrs⟩ := ih (fun z hz => hxs z (List.mem_cons_of_mem _ hz))
        (fun z hz => hys z (List.mem_cons_of_mem _ hz)) hrest
      exact ⟨by rw [List.map_cons, List.map_cons, hkey, hkeys], hrs⟩

/-- So are entries with a separator between them, if none begins with the closing character. -/
theorem enclosed_inj (hseparator : ∀ t, ends (separator ++ t)) (hclose : ∀ t, ends (close :: t))
    (hne : ∀ t u, separator ++ t ≠ close :: u) (hstart : ∀ x t u, text x ++ t ≠ close :: u)
    {xs ys : List α} (hxs : ∀ x ∈ xs, Unambiguous ends ok text key x) (hys : ∀ y ∈ ys, ok y)
    (h : enclosed separator text xs ++ close :: r = enclosed separator text ys ++ close :: s) :
    xs.map key = ys.map key ∧ r = s := by
  cases xs with
  | nil =>
    cases ys with
    | nil => exact ⟨rfl, List.tail_eq_of_cons_eq h⟩
    | cons y ys =>
      rw [enclosed, enclosed, List.append_assoc] at h
      exact absurd h.symm (hstart y _ _)
  | cons x xs =>
    cases ys with
    | nil =>
      rw [enclosed, enclosed, List.append_assoc] at h
      exact absurd h (hstart x _ _)
    | cons y ys =>
      rw [enclosed, enclosed, List.append_assoc, List.append_assoc] at h
      obtain ⟨hkey, hrest⟩ := hxs x List.mem_cons_self y (hys y List.mem_cons_self) _ _
        (ends_separated hseparator hclose xs r) (ends_separated hseparator hclose ys s) h
      obtain ⟨hkeys, hrs⟩ := separated_inj hseparator hclose hne
        (fun z hz => hxs z (List.mem_cons_of_mem _ hz))
        (fun z hz => hys z (List.mem_cons_of_mem _ hz)) hrest
      exact ⟨by rw [List.map_cons, List.map_cons, hkey, hkeys], hrs⟩

end Entries

namespace Json

/-! ## Numbers and strings -/

theorem readValue_numberChars (n : Number) (hr : NumberEnd r) (budget levels : Nat) :
    readValue budget levels (numberChars n ++ r) = .ok (.number n.reread, r) := by
  obtain ⟨negative, body, hchars, hread⟩ := exists_numberChars n
  rw [hchars, List.append_assoc]
  exact readValue_number (hread r hr) budget levels

/-- The text of a number determines the number. Where it ends, and whether it is a whole number,
is what the reader finds; the double itself is that of the same text. -/
theorem numberChars_append_inj {m n : Number} (hr : NumberEnd r) (hs : NumberEnd s)
    (h : numberChars m ++ r = numberChars n ++ s) : m = n ∧ r = s := by
  have hm := readValue_numberChars m hr 0 0
  have hn := readValue_numberChars n hs 0 0
  rw [h, hn] at hm
  obtain ⟨hreread, rfl⟩ := Prod.mk.inj (Except.ok.inj hm)
  refine ⟨?_, rfl⟩
  have hchars : numberChars m = numberChars n := List.append_cancel_right h
  cases m with
  | whole m =>
    cases n with
    | whole n => exact (number.inj hreread).symm
    | double y => cases hreread
  | double x =>
    cases n with
    | whole n => cases hreread
    | double y => exact congrArg Number.double (FiniteDouble.jsonChars_injective hchars)

/-- The text of a string determines the string. -/
theorem stringChars_append_inj {a b : String} (h : stringChars a ++ r = stringChars b ++ s) :
    a = b ∧ r = s := by
  have ha := readText_stringChars a r
  have hb := readText_stringChars b s
  have h : a.toList.flatMap escapeChar ++ '"' :: r = b.toList.flatMap escapeChar ++ '"' :: s := by
    simpa [stringChars] using h
  rw [h, hb] at ha
  exact (Prod.mk.inj (Except.ok.inj ha)).imp Eq.symm Eq.symm

/-! ## The kind of a value -/

/-- The kind of the values that begin with a character. -/
def kindAt (c : Char) : String :=
  if c = 'n' then kindName .null
  else if c = 't' ∨ c = 'f' then kindName (.bool true)
  else if c = '"' then kindName (.string "")
  else if c = '[' then kindName (.array [])
  else if c = '{' then kindName (.object [])
  else "a number"

/-- A written value begins with a character of its kind. -/
theorem exists_kindAt (layout : Layout) (depth : Nat) (v : Json) :
    ∃ c more, chars layout depth v = c :: more ∧ kindAt c = v.kindName := by
  cases v with
  | null => exact ⟨'n', _, rfl, rfl⟩
  | bool b => cases b <;> exact ⟨_, _, rfl, rfl⟩
  | number n =>
    obtain ⟨c, more, hchars, hc⟩ := exists_numberStart n
    refine ⟨c, more, by rw [chars, hchars], ?_⟩
    rcases hc with rfl | hc
    · rfl
    · have hn := ne_of_isDigit hc (show Char.isDigit 'n' = false by decide)
      have ht := ne_of_isDigit hc (show Char.isDigit 't' = false by decide)
      have hf := ne_of_isDigit hc (show Char.isDigit 'f' = false by decide)
      have hquote := ne_of_isDigit hc (show Char.isDigit '"' = false by decide)
      have hlist := ne_of_isDigit hc (show Char.isDigit '[' = false by decide)
      have hobject := ne_of_isDigit hc (show Char.isDigit '{' = false by decide)
      simp [kindAt, hn, ht, hf, hquote, hlist, hobject, kindName]
  | string text => exact ⟨'"', _, rfl, rfl⟩
  | array items => cases items <;> exact ⟨'[', _, rfl, rfl⟩
  | object members => cases members <;> exact ⟨'{', _, rfl, rfl⟩

/-- Texts of values of different kinds begin differently. -/
theorem kindName_eq_of_chars {layout : Layout} {depth : Nat} {v w : Json}
    (h : chars layout depth v ++ r = chars layout depth w ++ s) : v.kindName = w.kindName := by
  obtain ⟨c, more, hv, hc⟩ := exists_kindAt layout depth v
  obtain ⟨d, more', hw, hd⟩ := exists_kindAt layout depth w
  rw [hv, hw] at h
  rw [← hc, ← hd, (List.cons.inj h).1]

/-! ## Values -/

/-- The compact text of a list. -/
theorem chars_compact_array (depth : Nat) (items : List Json) (r : List Char) :
    chars .compact depth (.array items) ++ r =
      '[' :: (enclosed [','] (chars .compact (depth + 1)) items ++ ']' :: r) := by
  cases items with
  | nil => rfl
  | cons x xs =>
    rw [chars_array, enclosed]
    simp [Layout.compact, commaChars, separated]

/-- The compact text of an object. -/
theorem chars_compact_object (depth : Nat) (members : List (String × Json)) (r : List Char) :
    chars .compact depth (.object members) ++ r =
      '{' :: (enclosed [','] (memberText [] (chars .compact (depth + 1))) members ++ '}' :: r) := by
  cases members with
  | nil => rfl
  | cons m members =>
    rw [chars_object, enclosed]
    simp [Layout.compact, commaChars, separated]

/-- The value of a member is smaller than the members. -/
theorem sizeOf_lt_of_mem {m : String × Json} {members : List (String × Json)} (h : m ∈ members) :
    sizeOf m.2 < sizeOf members := by
  have hmember := List.sizeOf_lt_of_mem h
  obtain ⟨key, v⟩ := m
  show sizeOf v < sizeOf members
  simp only [Prod.mk.sizeOf_spec] at hmember
  omega

/-- What holds of the values without parts, of lists if it holds of their items, and of objects if it
holds of the values of their members, holds of every value. -/
@[elab_as_elim]
theorem induction {motive : Json → Prop} (null : motive .null) (bool : ∀ b, motive (.bool b))
    (number : ∀ n, motive (.number n)) (string : ∀ text, motive (.string text))
    (array : ∀ items, (∀ x ∈ items, motive x) → motive (.array items))
    (object : ∀ members, (∀ m ∈ members, motive m.2) → motive (.object members)) :
    ∀ v, motive v
  | .null => null
  | .bool b => bool b
  | .number n => number n
  | .string text => string text
  | .array items => array items fun x _ => induction null bool number string array object x
  | .object members => object members fun m hm =>
    have _hsize := sizeOf_lt_of_mem hm
    induction null bool number string array object m.2

/-- The compact text of items up to their bracket determines them, if that of each item does. -/
theorem items_append_inj {depth : Nat} {items others : List Json}
    (hitems : ∀ x ∈ items, Unambiguous NumberEnd (fun _ => True) (chars .compact depth) id x)
    (h : enclosed [','] (chars .compact depth) items ++ ']' :: r =
      enclosed [','] (chars .compact depth) others ++ ']' :: s) : items = others ∧ r = s := by
  have hstart : ∀ (x : Json) (t u : List Char), chars .compact depth x ++ t ≠ ']' :: u := by
    intro x t u hx
    obtain ⟨c, more, hchars, -, hc⟩ := valueStart_chars .compact depth x
    rw [hchars] at hx
    exact hc (List.cons.inj hx).1
  have hinj := enclosed_inj (numberEnd_cons (by decide)) (numberEnd_cons (by decide)) (by simp)
    hstart hitems (fun _ _ => trivial) h
  rwa [List.map_id, List.map_id] at hinj

/-- So does the compact text of members up to their brace, if that of each value does. -/
theorem members_append_inj {depth : Nat} {members others : List (String × Json)}
    (hvalues : ∀ m ∈ members, Unambiguous NumberEnd (fun _ => True) (chars .compact depth) id m.2)
    (h : enclosed [','] (memberText [] (chars .compact depth)) members ++ '}' :: r =
      enclosed [','] (memberText [] (chars .compact depth)) others ++ '}' :: s) :
    members = others ∧ r = s := by
  have hmember : ∀ m ∈ members, Unambiguous NumberEnd (fun _ => True)
      (memberText [] (chars .compact depth)) id m := by
    intro m hm n _ r s hr hs h
    simp only [memberText, List.append_assoc, List.cons_append, List.nil_append] at h
    obtain ⟨hkey, hcolon⟩ := stringChars_append_inj h
    obtain ⟨hvalue, hrs⟩ := hvalues m hm n.2 trivial r s hr hs (List.tail_eq_of_cons_eq hcolon)
    exact ⟨Prod.ext hkey hvalue, hrs⟩
  have hstart : ∀ (m : String × Json) (t u : List Char),
      memberText [] (chars .compact depth) m ++ t ≠ '}' :: u := by
    intro m t u hm
    rw [memberText_append] at hm
    simp at hm
  have hinj := enclosed_inj (numberEnd_cons (by decide)) (numberEnd_cons (by decide)) (by simp)
    hstart hmember (fun _ _ => trivial) h
  rwa [List.map_id, List.map_id] at hinj

/-- The compact text of a value determines the value, and where it ends. The induction is on the
first of the two values; the second has the same kind. -/
theorem chars_append_inj (v : Json) : ∀ (depth : Nat) (w : Json) (r s : List Char),
    NumberEnd r → NumberEnd s → chars .compact depth v ++ r = chars .compact depth w ++ s →
      v = w ∧ r = s := by
  induction v using induction with
  | null =>
    intro depth w r s hr hs h
    have hkind := kindName_eq_of_chars h
    cases w with
    | null => exact ⟨rfl, List.append_cancel_left h⟩
    | _ => simp [kindName] at hkind
  | bool b =>
    intro depth w r s hr hs h
    have hkind := kindName_eq_of_chars h
    cases w with
    | bool c =>
      cases b <;> cases c
      · exact ⟨rfl, List.append_cancel_left h⟩
      · simp [chars] at h
      · simp [chars] at h
      · exact ⟨rfl, List.append_cancel_left h⟩
    | _ => simp [kindName] at hkind
  | number m =>
    intro depth w r s hr hs h
    have hkind := kindName_eq_of_chars h
    cases w with
    | number n => exact (numberChars_append_inj hr hs h).imp (congrArg number) id
    | _ => simp [kindName] at hkind
  | string a =>
    intro depth w r s hr hs h
    have hkind := kindName_eq_of_chars h
    cases w with
    | string b => exact (stringChars_append_inj h).imp (congrArg string) id
    | _ => simp [kindName] at hkind
  | array items ih =>
    intro depth w r s hr hs h
    have hkind := kindName_eq_of_chars h
    cases w with
    | array others =>
      rw [chars_compact_array, chars_compact_array] at h
      have hitems := items_append_inj (fun x hx y _ => ih x hx (depth + 1) y)
        (List.tail_eq_of_cons_eq h)
      exact hitems.imp (congrArg array) id
    | _ => simp [kindName] at hkind
  | object members ih =>
    intro depth w r s hr hs h
    have hkind := kindName_eq_of_chars h
    cases w with
    | object others =>
      rw [chars_compact_object, chars_compact_object] at h
      have hmembers := members_append_inj (fun m hm y _ => ih m hm (depth + 1) y)
        (List.tail_eq_of_cons_eq h)
      exact hmembers.imp (congrArg object) id
    | _ => simp [kindName] at hkind

/-- No two values have one compact text. -/
theorem compact_injective : Function.Injective compact := by
  intro v w h
  have hchars := String.ofList_inj.1 h
  refine (chars_append_inj v 0 w [] [] numberEnd_nil numberEnd_nil ?_).1
  rw [hchars]

end Json

end RecordQuery
