/-
RecordQuery.Proofs.Coercion — rule values and display texts as they are documented.

A rule value is read as the kind of its field has it: for a number field as a
number, from a text by the longest numeral behind its white space; for a boolean
field as whether it says `true`; for other fields as it is. A value and a rule
value are searched by their display texts. Both are written down here as
relations, one case for each rule, without the functions of the library: numbers
by the nearest double, numerals by their grammar, the texts of numbers as
`Double.Shows` has them. Each relation leaves one answer, the one that the
library computes.

Main definitions:
* `Number.HasValue`, `NamesNumber` — the double of a number and of a text;
* `Coerces` — a rule value as the kind of its field has it;
* `Json.Shows`, `Literal.Shows` — display texts.

Main statements:
* `coerces_iff` — coercion is as documented;
* `Json.shows_iff`, `Literal.shows_iff` — display texts are as documented.
-/
import RecordQuery.Literal
import RecordQuery.Proofs.Double.LeadingNumeral
import RecordQuery.Proofs.Double.Plain

namespace RecordQuery

/-! ## Numbers -/

/-- The double is the one nearest to a JSON number. -/
inductive Number.HasValue : Number → Double → Prop
  | whole {n : Whole} {x : Double}
      (rounds : Double.Rounds (decide (n.value < 0)) n.value.natAbs x) : HasValue (.whole n) x
  | double (x : FiniteDouble) : HasValue (.double x) (.finite x)

theorem Double.rounds_ofInt (n : Int) : Rounds (decide (n < 0)) n.natAbs (ofInt n) := by
  refine rounds_ofMagnitude? ?_
  have hnearest := Magnitude.nearestTarget_ofRatio? (n.natAbs * unitsPerOne) Nat.one_pos
  rwa [Nat.cast_one, div_one, Nat.cast_mul] at hnearest

theorem Number.hasValue_iff {n : Number} {x : Double} : n.HasValue x ↔ x = n.toDouble := by
  constructor
  · rintro (⟨rounds⟩ | ⟨x⟩)
    · exact rounds.unique (Double.rounds_ofInt _)
    · rfl
  · rintro rfl
    cases n with
    | whole n => exact .whole (Double.rounds_ofInt n.value)
    | double x => exact .double x

/-! ## Numerals at the start of a text -/

/-- The code points of white space. -/
def whiteSpace : List Nat :=
  [0x9, 0xa, 0xb, 0xc, 0xd, 0x20, 0x85, 0xa0, 0x1680, 0x2000, 0x2001, 0x2002, 0x2003, 0x2004, 0x2005,
    0x2006, 0x2007, 0x2008, 0x2009, 0x200a, 0x2028, 0x2029, 0x202f, 0x205f, 0x3000]

theorem isBlank_iff (c : Char) : isBlank c = true ↔ c.toNat ∈ whiteSpace := by
  simp only [isBlank, blankRanges, whiteSpace, List.any_cons, List.any_nil, Bool.or_false,
    Bool.or_eq_true, Bool.and_eq_true, decide_eq_true_eq, List.mem_cons, List.not_mem_nil, or_false]
  omega

/-- What remains of a text behind the white space at its start. -/
def Trimmed (cs rest : List Char) : Prop :=
  ∃ blanks, cs = blanks ++ rest ∧ (∀ c ∈ blanks, c.toNat ∈ whiteSpace) ∧
    ∀ c ∈ rest.head?, c.toNat ∉ whiteSpace

theorem trimmed_iff {cs rest : List Char} : Trimmed cs rest ↔ rest = trimStart cs := by
  constructor
  · rintro ⟨blanks, rfl, hblanks, hrest⟩
    rw [trimStart, List.dropWhile_append_of_pos fun c hc => (isBlank_iff c).2 (hblanks c hc)]
    cases rest with
    | nil => rfl
    | cons c rest =>
      have hc : isBlank c ≠ true := fun h => hrest c rfl ((isBlank_iff c).1 h)
      rw [List.dropWhile_cons_of_neg hc]
  · rintro rfl
    refine ⟨cs.takeWhile isBlank, List.takeWhile_append_dropWhile.symm, fun c hc => ?_,
      fun c hc => ?_⟩
    · exact (isBlank_iff c).1 (List.all_eq_true.1 List.all_takeWhile c hc)
    · rw [← isBlank_iff]
      have hfirst := List.head?_dropWhile_not isBlank cs
      rw [trimStart] at hc
      cases hdrop : cs.dropWhile isBlank with
      | nil => simp [hdrop] at hc
      | cons d rest =>
        rw [hdrop] at hc hfirst
        obtain rfl : d = c := Option.some.inj hc
        simpa using hfirst

open Numeral (IsLongest IsNumeral Spells leading? leading?_spec leading?_of_spells
  leading?_eq_none_iff)

/-- The number that a text names: that of the longest numeral which it begins with behind its white
space, rounded to the nearest double, and no number if there is none. -/
inductive NamesNumber (text : String) : Double → Prop
  | infinity {cs p : List Char} {negative : Bool} (trimmed : Trimmed text.toList cs)
      (longest : IsLongest p cs) (spells : Spells p (.infinity negative)) :
      NamesNumber text (.infinity negative)
  | decimal {cs p whole fraction : List Char} {negative : Bool} {exponent : Int} {x : Double}
      (trimmed : Trimmed text.toList cs) (longest : IsLongest p cs)
      (spells : Spells p (.decimal negative whole fraction exponent))
      (rounds : Double.Rounds negative (decimalValue whole fraction exponent) x) :
      NamesNumber text x
  | nothing {cs : List Char} (trimmed : Trimmed text.toList cs)
      (noNumeral : ∀ p, p <+: cs → ¬ IsNumeral p) : NamesNumber text .nan

/-- The longest numeral is the one that the reader takes. -/
theorem ofText_of_isLongest {text : String} {p : List Char} {numeral : Numeral}
    (hlongest : IsLongest p (trimStart text.toList)) (hspells : Spells p numeral) :
    Double.ofText text = numeral.toDouble := by
  rw [Double.ofText]
  cases hread : leading? (trimStart text.toList) with
  | none => exact absurd hspells ((leading?_eq_none_iff _).1 hread p numeral hlongest.begins)
  | some read =>
    obtain ⟨taken, rest⟩ := read
    obtain ⟨q, hq, hqspells, hqlongest⟩ := leading?_spec hread
    have hbegins : q <+: trimStart text.toList := ⟨rest, hq.symm⟩
    have hlength : q.length = p.length :=
      Nat.le_antisymm (hlongest.longest q hbegins ⟨taken, hqspells⟩)
        (hqlongest p numeral hlongest.begins hspells)
    obtain rfl : q = p :=
      (List.prefix_of_prefix_length_le hbegins hlongest.begins hlength.le).eq_of_length hlength
    have hsame := (leading?_of_spells hqspells).symm.trans (leading?_of_spells hspells)
    obtain rfl : taken = numeral := congrArg Prod.fst (Option.some.inj hsame)
    rfl

/-- A text names the number that it is read as. -/
theorem namesNumber_iff {text : String} {x : Double} :
    NamesNumber text x ↔ x = Double.ofText text := by
  constructor
  · rintro (⟨trimmed, longest, spells⟩ | ⟨trimmed, longest, spells, rounds⟩ |
      ⟨trimmed, noNumeral⟩) <;> obtain rfl := trimmed_iff.1 trimmed
    · exact (ofText_of_isLongest longest spells).symm
    · rw [ofText_of_isLongest longest spells]
      exact rounds.unique (Numeral.rounds_toDouble _ _ _ _)
    · have hnone : leading? (trimStart text.toList) = none :=
        (leading?_eq_none_iff _).2 fun p numeral hp hspells => noNumeral p hp ⟨numeral, hspells⟩
      rw [Double.ofText, hnone]
  · rintro rfl
    cases hread : leading? (trimStart text.toList) with
    | none =>
      have hnan : Double.ofText text = .nan := by rw [Double.ofText, hread]
      rw [hnan]
      refine .nothing (trimmed_iff.2 rfl) ?_
      rintro p hp ⟨numeral, hspells⟩
      exact (leading?_eq_none_iff _).1 hread p numeral hp hspells
    | some read =>
      obtain ⟨numeral, rest⟩ := read
      obtain ⟨p, hp, hspells, hlongest⟩ := leading?_spec hread
      have longest : IsLongest p (trimStart text.toList) := by
        refine ⟨⟨numeral, hspells⟩, ⟨rest, hp.symm⟩, ?_⟩
        rintro q hq ⟨other, hother⟩
        exact hlongest q other hq hother
      have hvalue := ofText_of_isLongest longest hspells
      cases numeral with
      | infinity negative =>
        rw [hvalue]
        exact .infinity (trimmed_iff.2 rfl) longest hspells
      | decimal negative whole fraction exponent =>
        refine .decimal (trimmed_iff.2 rfl) longest hspells ?_
        rw [hvalue]
        exact Numeral.rounds_toDouble _ _ _ _

/-! ## Rule values -/

/-- A rule value as it is. -/
inductive Unchanged : Json → Literal → Prop
  | null : Unchanged .null .null
  | bool (b : Bool) : Unchanged (.bool b) (.bool b)
  | number {n : Number} {x : Double} (value : n.HasValue x) : Unchanged (.number n) (.number x)
  | text (s : String) : Unchanged (.string s) (.text s)
  | array (items : List Json) : Unchanged (.array items) (.json (.array items))
  | object (members : List (String × Json)) : Unchanged (.object members) (.json (.object members))

/-- A rule value as the kind of its field has it. -/
inductive Coerces : FieldKind → Json → Literal → Prop
  | number {n : Number} {x : Double} (value : n.HasValue x) :
      Coerces .number (.number n) (.number x)
  | numeral {text : String} {x : Double} (names : NamesNumber text x) :
      Coerces .number (.string text) (.number x)
  | noNumber {v : Json} (notNumber : ∀ n, v ≠ .number n) (notText : ∀ text, v ≠ .string text) :
      Coerces .number v (.number .nan)
  | true {v : Json} (saysTrue : v = .bool true ∨ v = .string "true") :
      Coerces .boolean v (.bool true)
  | false {v : Json} (saysOther : ¬ (v = .bool true ∨ v = .string "true")) :
      Coerces .boolean v (.bool false)
  | text {v : Json} {literal : Literal} (unchanged : Unchanged v literal) : Coerces .text v literal
  | date {v : Json} {literal : Literal} (unchanged : Unchanged v literal) : Coerces .date v literal

variable {v : Json} {literal : Literal} {kind : FieldKind}

theorem unchanged_iff : Unchanged v literal ↔ literal = Literal.ofJson v := by
  constructor
  · intro h
    cases h with
    | number value => rw [Number.hasValue_iff.1 value]; rfl
    | _ => rfl
  · rintro rfl
    cases v with
    | null => exact .null
    | bool b => exact .bool b
    | number n => exact .number (Number.hasValue_iff.2 rfl)
    | string s => exact .text s
    | array items => exact .array items
    | object members => exact .object members

theorem truthOf_iff : Literal.truthOf v = true ↔ v = .bool true ∨ v = .string "true" := by
  cases v <;> simp [Literal.truthOf]

/-- Coercion is as documented. -/
theorem coerces_iff : Coerces kind v literal ↔ literal = Literal.coerce kind v := by
  constructor
  · intro h
    cases h with
    | number value => rw [Number.hasValue_iff.1 value]; rfl
    | numeral names => rw [namesNumber_iff.1 names]; rfl
    | noNumber notNumber notText =>
      cases v with
      | number n => exact absurd rfl (notNumber n)
      | string text => exact absurd rfl (notText text)
      | _ => rfl
    | true saysTrue => rw [Literal.coerce, truthOf_iff.2 saysTrue]
    | false saysOther =>
      rw [Literal.coerce, Bool.eq_false_iff.2 fun h => saysOther (truthOf_iff.1 h)]
    | text unchanged => exact unchanged_iff.1 unchanged
    | date unchanged => exact unchanged_iff.1 unchanged
  · rintro rfl
    cases kind with
    | number =>
      cases v with
      | number n => exact .number (Number.hasValue_iff.2 rfl)
      | string text => exact .numeral (namesNumber_iff.2 rfl)
      | _ => exact .noNumber (fun _ h => by cases h) fun _ h => by cases h
    | boolean =>
      rw [Literal.coerce]
      cases htruth : Literal.truthOf v with
      | true => exact .true (truthOf_iff.1 htruth)
      | false => exact .false fun h => by simp [truthOf_iff.2 h] at htruth
    | text => exact .text (unchanged_iff.2 rfl)
    | date => exact .date (unchanged_iff.2 rfl)

example : Literal.coerce .number (.string " 12abc") = .number (.ofInt 12) := by decide +kernel

/-! ## Display texts -/

namespace Json

mutual

/-- The text by which a value is searched: a word for null, the truth values and every object, numbers
as they are displayed, strings as they are, and the items of a list with commas between them. -/
def Shows : Json → List Char → Prop
  | .null, cs => cs = "null".toList
  | .bool true, cs => cs = "true".toList
  | .bool false, cs => cs = "false".toList
  | .number n, cs => ∃ x, n.HasValue x ∧ x.Shows cs
  | .string text, cs => cs = text.toList
  | .array items, cs => ∃ texts, ShowItems items texts ∧ cs = [','].intercalate texts
  | .object _, cs => cs = "[object Object]".toList

/-- The texts of the items of a list, which is empty for null. -/
def ShowItems : List Json → List (List Char) → Prop
  | [], texts => texts = []
  | .null :: items, texts => ∃ rest, texts = [] :: rest ∧ ShowItems items rest
  | item :: items, texts => ∃ first rest, texts = first :: rest ∧ item.Shows first ∧
      ShowItems items rest

end

theorem displayItems_eq (items : List Json) :
    displayItems items = (items.map displayItem).flatMap (',' :: ·) := by
  induction items with
  | nil => rw [displayItems, List.map_nil, List.flatMap_nil]
  | cons item items ih => rw [displayItems, ih, List.map_cons, List.flatMap_cons, List.cons_append]

theorem intercalate_cons (first : List Char) (rest : List (List Char)) :
    [','].intercalate (first :: rest) = first ++ rest.flatMap (',' :: ·) := by
  induction rest generalizing first with
  | nil => rw [List.intercalate_singleton, List.flatMap_nil, List.append_nil]
  | cons second rest ih => rw [List.intercalate_cons_cons, ih, List.flatMap_cons]; simp

mutual

/-- The text by which a value is searched is as documented. -/
theorem shows_iff : ∀ {v : Json} {cs : List Char}, v.Shows cs ↔ cs = v.displayChars
  | .null, _ => by rw [Shows, displayChars]
  | .bool true, _ => by rw [Shows, displayChars]
  | .bool false, _ => by rw [Shows, displayChars]
  | .number n, _ => by
    simp only [Shows, displayChars, Number.hasValue_iff, exists_eq_left, Double.shows_iff]
  | .string text, _ => by rw [Shows, displayChars]
  | .array items, _ => by
    simp only [Shows, showItems_iff, exists_eq_left]
    cases items with
    | nil => rw [displayChars]; rfl
    | cons item items => rw [displayChars, displayItems_eq, List.map_cons, intercalate_cons]
  | .object _, _ => by rw [Shows, displayChars]

theorem showItems_iff : ∀ {items : List Json} {texts : List (List Char)},
    ShowItems items texts ↔ texts = items.map displayItem
  | [], _ => by rw [ShowItems, List.map_nil]
  | .null :: items, _ => by
    simp only [ShowItems, showItems_iff, List.map_cons, displayItem]
    simp
  | .bool b :: items, _ => by
    simp only [ShowItems, showItems_iff, shows_iff, List.map_cons, displayItem]
    simp
  | .number n :: items, _ => by
    simp only [ShowItems, showItems_iff, shows_iff, List.map_cons, displayItem]
    simp
  | .string text :: items, _ => by
    simp only [ShowItems, showItems_iff, shows_iff, List.map_cons, displayItem]
    simp
  | .array list :: items, _ => by
    simp only [ShowItems, showItems_iff, shows_iff, List.map_cons, displayItem]
    simp
  | .object members :: items, _ => by
    simp only [ShowItems, showItems_iff, shows_iff, List.map_cons, displayItem]
    simp

end

end Json

/-- The text that is searched for. -/
inductive Literal.Shows : Literal → List Char → Prop
  | null : Shows .null "null".toList
  | true : Shows (.bool true) "true".toList
  | false : Shows (.bool false) "false".toList
  | number {x : Double} {cs : List Char} (shows : x.Shows cs) : Shows (.number x) cs
  | text (s : String) : Shows (.text s) s.toList
  | json {v : Json} {cs : List Char} (shows : v.Shows cs) : Shows (.json v) cs

/-- The text that is searched for is as documented. -/
theorem Literal.shows_iff {cs : List Char} : literal.Shows cs ↔ cs = literal.displayChars := by
  constructor
  · intro h
    cases h with
    | number shows => exact Double.shows_iff.1 shows
    | json shows => exact Json.shows_iff.1 shows
    | _ => rfl
  · rintro rfl
    cases literal with
    | null => exact .null
    | bool b =>
      cases b with
      | true => exact .true
      | false => exact .false
    | number x => exact .number (Double.shows_iff.2 rfl)
    | text s => exact .text s
    | json v => exact .json (Json.shows_iff.2 rfl)

end RecordQuery
