/-
RecordQuery.Proofs.Json.Result — what the readers of JSON return.

How a value was read is told once: which entries the two loops took, one after
the other (`ReadsItems`, `ReadsMembers`), and which reader a value was left to by
its first character (`Finds`). Everything that holds of values that were read is
proved along these, without the budget and the branches of the readers.

Whatever text a reader accepts, the value that it returns is one that it would
also accept when it is written: objects list their members in order of the keys,
since members are put into a map one by one, and nothing nests deeper than the
reader went. `Ensures` states such facts of a reader, and each loop hands them
on from its entries to the whole.

Main statements:
* `readsItems_of_readItems`, `readsMembers_of_readMembers`, `finds_of_readValue`;
* `readItems_ensures`, `readMembers_ensures` — the two loops;
* `readValue_ensures` — values;
* `readMap_ensures` — maps of any values.
-/
import RecordQuery.Proofs.Except
import RecordQuery.Proofs.Json.Value

namespace RecordQuery

namespace Json

variable {α σ : Type} {budget levels : Nat}

/-! ## How entries were read -/

/-- The items that were read from a text on, one after the other up to the closing bracket. -/
inductive ReadsItems (item : Reader α) : (first : Bool) → List Char → List α → List Char → Prop
  | closed {first : Bool} {cs rest : List Char} (hnext : nextItem first cs = .ok (.closed rest)) :
      ReadsItems item first cs [] rest
  | entry {first : Bool} {cs start behind rest : List Char} {x : α} {xs : List α}
      (hnext : nextItem first cs = .ok (.entry start)) (hitem : item start = .ok (x, behind))
      (hrest : ReadsItems item false behind xs rest) : ReadsItems item first cs (x :: xs) rest

theorem readsItems_of_readItems {item : Reader α} {first : Bool} {cs rest : List Char} {xs : List α}
    (h : readItems item budget first cs = .ok (xs, rest)) : ReadsItems item first cs xs rest := by
  induction budget generalizing first cs xs with
  | zero => cases h
  | succ budget ih =>
    rw [readItems] at h
    split at h
    · cases h
    · rename_i hclosed
      cases h
      exact .closed hclosed
    · rename_i hnext
      split at h
      · cases h
      · rename_i hitem
        obtain ⟨found, hfound, heq⟩ := Except.map_eq_ok.1 h
        cases heq
        exact .entry hnext hitem (ih hfound)

/-- The members that were read from a text on, and the state to which they lead from another. -/
inductive ReadsMembers (member : σ → String → Reader σ) :
    (first : Bool) → σ → List Char → σ → List Char → Prop
  | closed {first : Bool} {state : σ} {cs rest : List Char}
      (hnext : nextKey first cs = .ok (.closed rest)) : ReadsMembers member first state cs state rest
  | entry {first : Bool} {state mid last : σ} {cs start value behind rest : List Char} {key : String}
      (hnext : nextKey first cs = .ok (.entry start)) (hkey : readText start = .ok (key, value))
      (hmember : member state key value = .ok (mid, behind))
      (hrest : ReadsMembers member false mid behind last rest) :
      ReadsMembers member first state cs last rest

theorem readsMembers_of_readMembers {member : σ → String → Reader σ} {first : Bool}
    {state last : σ} {cs rest : List Char}
    (h : readMembers member budget first state cs = .ok (last, rest)) :
    ReadsMembers member first state cs last rest := by
  induction budget generalizing first state cs with
  | zero => cases h
  | succ budget ih =>
    rw [readMembers] at h
    split at h
    · cases h
    · rename_i hclosed
      cases h
      exact .closed hclosed
    · rename_i hnext
      split at h
      · cases h
      · rename_i hkey
        split at h
        · cases h
        · rename_i hmember
          exact .entry hnext hkey hmember (ih h)

/-! ## How a value was read -/

/-- What the reader finds in a text that begins with the character `c` and goes on with `cs`: which
reader it leaves this to, and what that one returns. -/
inductive Finds (budget : Nat) :
    (levels : Nat) → (c : Char) → (cs : List Char) → Json → (rest : List Char) → Prop
  | string {levels : Nat} {cs rest : List Char} {text : String}
      (h : readText cs = .ok (text, rest)) : Finds budget levels '"' cs (.string text) rest
  | array {levels : Nat} {cs rest : List Char} {items : List Json}
      (h : readItems (readValue budget levels) budget true cs = .ok (items, rest)) :
      Finds budget (levels + 1) '[' cs (.array items) rest
  | object {levels : Nat} {cs rest : List Char} {members : List (String × Json)}
      (h : readMembers (readEntry budget levels) budget true [] cs = .ok (members, rest)) :
      Finds budget (levels + 1) '{' cs (.object members) rest
  | null {levels : Nat} {cs rest : List Char} (h : readWord ['u', 'l', 'l'] cs = .ok rest) :
      Finds budget levels 'n' cs .null rest
  | yes {levels : Nat} {cs rest : List Char} (h : readWord ['r', 'u', 'e'] cs = .ok rest) :
      Finds budget levels 't' cs (.bool true) rest
  | no {levels : Nat} {cs rest : List Char} (h : readWord ['a', 'l', 's', 'e'] cs = .ok rest) :
      Finds budget levels 'f' cs (.bool false) rest
  | negative {levels : Nat} {cs rest : List Char} {n : Number}
      (h : readNumber true cs = .ok (n, rest)) : Finds budget levels '-' cs (.number n) rest
  | digit {levels : Nat} {c : Char} {cs rest : List Char} {n : Number} (hc : c.isDigit = true)
      (h : readNumber false (c :: cs) = .ok (n, rest)) : Finds budget levels c cs (.number n) rest

/-- All that the reader of values can find, by the first character behind white space. -/
theorem finds_of_readValue {c : Char} {cs more rest : List Char} {v : Json}
    (hspace : skipSpace cs = c :: more) (h : readValue budget levels cs = .ok (v, rest)) :
    Finds budget levels c more v rest := by
  rw [readValue, hspace] at h
  dsimp only at h
  by_cases hquote : c = '"'
  · rw [if_pos hquote] at h
    obtain ⟨_, hfound, heq⟩ := Except.map_eq_ok.1 h
    cases heq
    exact hquote ▸ .string hfound
  rw [if_neg hquote] at h
  by_cases hbracket : c = '['
  · rw [if_pos hbracket] at h
    cases levels with
    | zero => cases h
    | succ levels =>
      obtain ⟨_, hfound, heq⟩ := Except.map_eq_ok.1 h
      cases heq
      exact hbracket ▸ .array hfound
  rw [if_neg hbracket] at h
  by_cases hbrace : c = '{'
  · rw [if_pos hbrace] at h
    cases levels with
    | zero => cases h
    | succ levels =>
      obtain ⟨_, hfound, heq⟩ := Except.map_eq_ok.1 h
      cases heq
      exact hbrace ▸ .object hfound
  rw [if_neg hbrace] at h
  by_cases hn : c = 'n'
  · rw [if_pos hn] at h
    obtain ⟨_, hfound, heq⟩ := Except.map_eq_ok.1 h
    cases heq
    exact hn ▸ .null hfound
  rw [if_neg hn] at h
  by_cases ht : c = 't'
  · rw [if_pos ht] at h
    obtain ⟨_, hfound, heq⟩ := Except.map_eq_ok.1 h
    cases heq
    exact ht ▸ .yes hfound
  rw [if_neg ht] at h
  by_cases hf : c = 'f'
  · rw [if_pos hf] at h
    obtain ⟨_, hfound, heq⟩ := Except.map_eq_ok.1 h
    cases heq
    exact hf ▸ .no hfound
  rw [if_neg hf] at h
  by_cases hminus : c = '-'
  · rw [if_pos hminus] at h
    obtain ⟨_, hfound, heq⟩ := Except.map_eq_ok.1 h
    cases heq
    exact hminus ▸ .negative hfound
  rw [if_neg hminus] at h
  by_cases hdigit : c.isDigit = true
  · rw [if_pos hdigit] at h
    obtain ⟨_, hfound, heq⟩ := Except.map_eq_ok.1 h
    cases heq
    exact .digit hdigit hfound
  · rw [if_neg hdigit] at h
    cases h

/-- A text in which a value is found has such a character. -/
theorem exists_finds {cs rest : List Char} {v : Json}
    (h : readValue budget levels cs = .ok (v, rest)) :
    ∃ c more, skipSpace cs = c :: more ∧ Finds budget levels c more v rest := by
  cases hspace : skipSpace cs with
  | nil =>
    rw [readValue, hspace] at h
    cases h
  | cons c more => exact ⟨c, more, rfl, finds_of_readValue hspace h⟩

/-! ## What lists and objects hold -/

/-- Whatever the reader returns has the property. -/
def Ensures (reader : Reader α) (property : α → Prop) : Prop :=
  ∀ cs x rest, reader cs = .ok (x, rest) → property x

theorem readItems_ensures {item : Reader α} {p : α → Prop} (h : Ensures item p) (first : Bool) :
    Ensures (readItems item budget first) fun xs => ∀ x ∈ xs, p x := by
  intro cs xs rest hread
  replace hread := readsItems_of_readItems hread
  induction hread with
  | closed => exact List.forall_mem_nil _
  | entry _ hitem _ ih => exact List.forall_mem_cons.2 ⟨h _ _ _ hitem, ih⟩

theorem readMembers_ensures {member : σ → String → Reader σ} {p : σ → Prop}
    (h : ∀ state key, p state → Ensures (member state key) p) (first : Bool) {state : σ}
    (hstate : p state) : Ensures (readMembers member budget first state) p := by
  intro cs last rest hread
  replace hread := readsMembers_of_readMembers hread
  induction hread with
  | closed => exact hstate
  | entry _ _ hmember _ ih => exact ih (h _ _ hstate _ _ _ hmember)

theorem readList_ensures {item : Nat → Reader α} {p : List α → Prop}
    (h : ∀ inner, levels = inner + 1 →
      ∃ q : α → Prop, Ensures (item inner) q ∧ ∀ xs, (∀ x ∈ xs, q x) → p xs) :
    Ensures (readList budget levels item) p := by
  intro cs xs rest hread
  rw [readList] at hread
  split at hread
  · cases hread
  · split at hread
    · cases levels with
      | zero => cases hread
      | succ inner =>
        obtain ⟨q, hitem, himp⟩ := h inner rfl
        exact himp xs (readItems_ensures hitem true _ _ _ hread)
    · cases hread

theorem readObject_ensures {member : Nat → σ → String → Reader σ} {p : σ → Prop}
    {wanted : String} {initial : σ}
    (h : ∀ inner, levels = inner + 1 →
      ∃ q : σ → Prop, q initial ∧ (∀ state key, q state → Ensures (member inner state key) q) ∧
        ∀ state, q state → p state) :
    Ensures (readObject budget levels wanted initial member) p := by
  intro cs state rest hread
  rw [readObject] at hread
  split at hread
  · cases hread
  · split at hread
    · cases levels with
      | zero => cases hread
      | succ inner =>
        obtain ⟨q, hinitial, hmember, himp⟩ := h inner rfl
        exact himp state (readMembers_ensures hmember true hinitial _ _ _ hread)
    · cases hread

theorem readField_ensures {reader : Reader α} {p : α → Prop} (h : Ensures reader p) (name : String)
    (former : Option α) : Ensures (readField reader name former) p := by
  intro cs x rest hread
  cases former with
  | some _ => cases hread
  | none =>
    obtain ⟨behind, _, hread⟩ := Except.bind_eq_ok.1 hread
    exact h behind x rest hread

theorem readNext_ensures {reader : Reader α} {p : α → Prop} (h : Ensures reader p) (first : Bool) :
    Ensures (readNext first reader) fun found => ∀ x ∈ found, p x := by
  intro cs found rest hread
  rw [readNext] at hread
  split at hread
  · cases hread
  · cases hread
    exact fun _ h => by cases h
  · obtain ⟨⟨y, _⟩, hy, heq⟩ := Except.map_eq_ok.1 hread
    cases heq
    rintro _ ⟨⟩
    exact h _ _ _ hy

/-! ## Values -/

/-- What a reader can return that goes `levels` deep. -/
def IsWithin (levels : Nat) (v : Json) : Prop := v.IsSorted ∧ v.nesting ≤ levels

/-- The members of an object that such a reader can return. -/
def AreWithin (levels : Nat) (members : List (String × Json)) : Prop :=
  Increasing members ∧ ∀ m ∈ members, m.2.IsWithin levels

theorem isWithin_scalar {v : Json} (hsorted : v.IsSorted) (hnesting : v.nesting = 0) :
    v.IsWithin levels :=
  ⟨hsorted, by omega⟩

theorem isWithin_array {items : List Json} (h : ∀ x ∈ items, x.IsWithin levels) :
    (array items).IsWithin (levels + 1) :=
  ⟨.array fun x hx => (h x hx).1, nesting_array_le_iff.2 fun x hx => (h x hx).2⟩

theorem isWithin_object {members : List (String × Json)} (h : AreWithin levels members) :
    (object members).IsWithin (levels + 1) :=
  ⟨.object h.1 fun m hm => (h.2 m hm).1, nesting_object_le_iff.2 fun m hm => (h.2 m hm).2⟩

theorem areWithin_nil : AreWithin levels [] := ⟨List.Pairwise.nil, List.forall_mem_nil _⟩

theorem areWithin_putEntry {members : List (String × Json)} {key : String} {v : Json}
    (h : AreWithin levels members) (hv : v.IsWithin levels) :
    AreWithin levels (putEntry key v members) := by
  refine ⟨increasing_putEntry key v h.1, fun m hm => ?_⟩
  rcases mem_putEntry hm with rfl | hm
  · exact hv
  · exact h.2 m hm

theorem readEntry_ensures (h : Ensures (readValue budget levels) (IsWithin levels))
    (members : List (String × Json)) (key : String) (hmembers : AreWithin levels members) :
    Ensures (readEntry budget levels members key) (AreWithin levels) := by
  intro cs found rest hread
  obtain ⟨behind, _, hread⟩ := Except.bind_eq_ok.1 hread
  obtain ⟨⟨v, rest'⟩, hv, hread⟩ := Except.bind_eq_ok.1 hread
  cases hread
  exact areWithin_putEntry hmembers (h _ _ _ hv)

/-- A value that was read is sorted and nests no deeper than the reader goes. -/
theorem readValue_ensures (budget levels : Nat) :
    Ensures (readValue budget levels) (IsWithin levels) := by
  induction levels using Nat.strong_induction_on with
  | _ levels ih =>
    intro cs v rest hread
    obtain ⟨c, more, -, hfinds⟩ := exists_finds hread
    cases hfinds with
    | string => exact isWithin_scalar (.string _) rfl
    | array hitems =>
      have hvalue := ih _ (Nat.lt_succ_self _)
      exact isWithin_array (readItems_ensures hvalue true _ _ _ hitems)
    | object hmembers =>
      have hentry := readEntry_ensures (ih _ (Nat.lt_succ_self _))
      exact isWithin_object (readMembers_ensures hentry true areWithin_nil _ _ _ hmembers)
    | null => exact isWithin_scalar .null rfl
    | yes => exact isWithin_scalar (.bool true) rfl
    | no => exact isWithin_scalar (.bool false) rfl
    | negative => exact isWithin_scalar (.number _) rfl
    | digit => exact isWithin_scalar (.number _) rfl

/-! ## Maps -/

/-- The values of a map that was read nest one level less deep than the reader goes. -/
theorem readMap_ensures (budget levels : Nat) :
    Ensures (readMap budget levels) fun map =>
      ∀ entry ∈ map.entries, entry.2.IsSorted ∧ entry.2.nesting < levels := by
  refine readObject_ensures fun inner hlevels => ?_
  refine ⟨fun map => ∀ entry ∈ map.entries, entry.2.IsWithin inner, List.forall_mem_nil _, ?_, ?_⟩
  · intro map key hmap cs found rest hread
    obtain ⟨behind, _, hread⟩ := Except.bind_eq_ok.1 hread
    obtain ⟨⟨v, rest'⟩, hv, hread⟩ := Except.bind_eq_ok.1 hread
    cases hread
    intro entry hentry
    rcases mem_putEntry hentry with rfl | hentry
    · exact readValue_ensures budget inner _ _ _ hv
    · exact hmap entry hentry
  · intro map hmap entry hentry
    exact ⟨(hmap entry hentry).1, hlevels ▸ Nat.lt_succ_of_le (hmap entry hentry).2⟩

/-- What a whole text holds, its reader returned. -/
theorem exists_of_readWhole {reader : Nat → Reader α} {text : String} {x : α}
    (h : readWhole reader text = .ok x) : ∃ budget cs rest, reader budget cs = .ok (x, rest) := by
  rw [readWhole] at h
  split at h
  · cases h
  · rename_i hread
    split at h
    · cases h
      exact ⟨_, _, _, hread⟩
    · cases h

end Json

end RecordQuery
