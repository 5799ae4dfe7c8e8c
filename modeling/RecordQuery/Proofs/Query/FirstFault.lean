/-
RecordQuery.Proofs.Query.FirstFault — the fault that is reported of a value.

A value that is no tree breaks the rules of trees at some places. A place is a
node, reached from the root by the numbers of the children on the way, or a key
of a node. The order in which a value is read puts a node before all that is
behind it and what is behind one child before what is behind the next, which is
the order of these numbers as words; in a group the combinator comes before
`rules`, and in a rule the field before the operator. The reader reports the
first fault in this order. So nothing that comes later has any influence on what
is reported. What the rules of trees are, and which message stands for which break
of them, is written down in `Breaks` with the texts themselves.

Main statements:
* `Place.text_eq`, `Place.text_injective` — the text of a place, which can be read in one way;
* `QueryProblem.message_injective` — no two problems have one message;
* `Query.ofJson_eq_error_iff` — what is reported is the first fault;
* `Query.faultAt_replaceNode` — faults before a node do not depend on the node;
* `Query.ofJson_first_fault` — all of this of a value that is refused.
-/
import RecordQuery.Proofs.Json.Number
import RecordQuery.Proofs.Query.Grammar

namespace RecordQuery

/-! ## Places -/

namespace Place

/-- The keys at which a tree is read, in the order of reading, behind the node itself. -/
def readingOrder : List (Option String) :=
  [none, some "combinator", some "rules", some "field", some "operator"]

/-- The place comes before another when a value is read. -/
def Before (place other : Place) : Prop :=
  place.steps < other.steps ∨ place.steps = other.steps ∧
    readingOrder.idxOf place.key < readingOrder.idxOf other.key

theorem Before.asymm {place other : Place} (h : place.Before other) : ¬ other.Before place := by
  rintro (hlt | ⟨heq, hlt⟩)
  · rcases h with h | ⟨h, -⟩
    · exact List.lt_asymm h hlt
    · exact List.lt_irrefl _ (h ▸ hlt)
  · rcases h with h | ⟨-, h⟩
    · exact List.lt_irrefl _ (heq ▸ h)
    · omega

/-- The characters of the way to a child. -/
def stepChars (index : Nat) : List Char :=
  ['.', 'r', 'u', 'l', 'e', 's', '['] ++ (Nat.toDigits 10 index ++ [']'])

/-- The characters of the key at the end, if there is one. -/
def keyChars : Option String → List Char
  | none => []
  | some key => '.' :: key.toList

theorem toList_step (index : Nat) : (s!".rules[{index}]").toList = stepChars index := by
  show (".rules[" ++ Nat.repr index ++ "]").toList = _
  have hbracket : "]".toList = [']'] := rfl
  rw [String.toList_append, String.toList_append, Nat.repr, String.toList_ofList, List.append_assoc,
    String.toList_ofList, hbracket, stepChars]

theorem toList_steps (start : String) (steps : List Nat) :
    (steps.foldl (fun sofar index => sofar ++ s!".rules[{index}]") start).toList =
      start.toList ++ steps.flatMap stepChars := by
  induction steps generalizing start with
  | nil => simp
  | cons index steps ih =>
    rw [List.foldl_cons, ih, String.toList_append, toList_step, List.flatMap_cons,
      List.append_assoc]

/-- The text of a place: the way to the node from `$` on, and then the key. -/
theorem toList_text (place : Place) :
    place.text.toList = '$' :: (place.steps.flatMap stepChars ++ keyChars place.key) := by
  obtain ⟨steps, key⟩ := place
  have hdown := toList_steps "$" steps
  cases key with
  | none =>
    rw [keyChars, List.append_nil]
    exact hdown
  | some key =>
    show ((steps.foldl _ "$" ++ ".") ++ key).toList = _
    rw [String.toList_append, String.toList_append, hdown, List.append_assoc]
    rfl

theorem foldl_append_eq_join {α : Type} (f : α → String) (start : String) (xs : List α) :
    xs.foldl (fun sofar x => sofar ++ f x) start = start ++ String.join (xs.map f) := by
  induction xs generalizing start with
  | nil => simp
  | cons x xs ih => rw [List.foldl_cons, ih, List.map_cons, String.join_cons, String.append_assoc]

/-- The text of a place: `$`, then `.rules[i]` for the child on each level, then `.key`. -/
theorem text_eq (place : Place) :
    place.text = "$" ++ String.join (place.steps.map fun index => ".rules[" ++ toString index ++ "]") ++
      place.key.elim "" ("." ++ ·) := by
  obtain ⟨steps, key⟩ := place
  have hdown : steps.foldl (fun sofar index => sofar ++ s!".rules[{index}]") "$" =
      "$" ++ String.join (steps.map fun index => ".rules[" ++ toString index ++ "]") :=
    foldl_append_eq_join _ "$" steps
  cases key with
  | none =>
    rw [Option.elim_none, String.append_empty]
    exact hdown
  | some key =>
    show steps.foldl _ "$" ++ "." ++ key = _
    rw [hdown, Option.elim_some, String.append_assoc]

theorem takeWhile_bracket (index : Nat) (rest : List Char) :
    (Nat.toDigits 10 index ++ ']' :: rest).takeWhile (· != ']') = Nat.toDigits 10 index := by
  have hdigits : ∀ c ∈ Nat.toDigits 10 index, (c != ']') = true := by
    intro c hc
    have hdigit := Json.isDigits_toDigits index c hc
    exact bne_iff_ne.2 (Json.ne_of_isDigit hdigit (by decide))
  rw [List.takeWhile_append_of_pos hdigits, List.takeWhile_cons_of_neg (by decide),
    List.append_nil]

/-- The number of a child ends at the bracket. -/
theorem stepChars_append_inj {index index' : Nat} {rest rest' : List Char}
    (h : stepChars index ++ rest = stepChars index' ++ rest') : index = index' ∧ rest = rest' := by
  simp only [stepChars, List.append_assoc, List.append_cancel_left_eq, List.singleton_append] at h
  have hdigits := congrArg (List.takeWhile (· != ']')) h
  rw [takeWhile_bracket, takeWhile_bracket] at hdigits
  have hindex : index = index' := by
    rw [← Nat.ofDigitChars_ten_toDigits (n := index), hdigits, Nat.ofDigitChars_ten_toDigits]
  subst hindex
  exact ⟨rfl, List.tail_eq_of_cons_eq (List.append_cancel_left h)⟩

/-- None of the keys looks like the way to a child. -/
theorem keyChars_ne_step {key : Option String} (hkey : key ∈ readingOrder) (index : Nat)
    (rest : List Char) : keyChars key ≠ stepChars index ++ rest := by
  intro h
  have hbracket : ∀ key ∈ readingOrder, (keyChars key)[6]? ≠ some '[' := by decide
  refine hbracket key hkey ?_
  rw [h]
  rfl

theorem keyChars_inj {key key' : Option String} (h : keyChars key = keyChars key') : key = key' := by
  cases key with
  | none => cases key' <;> simp [keyChars] at h ⊢
  | some key => cases key' <;> simp [keyChars, String.toList_inj] at h ⊢; exact h

/-- The text of a place can be read in one way, as numbers of children and then perhaps a key. -/
theorem text_injective {place other : Place} (hkey : place.key ∈ readingOrder)
    (hother : other.key ∈ readingOrder) (h : other.text = place.text) : other = place := by
  obtain ⟨steps, key⟩ := place
  obtain ⟨steps', key'⟩ := other
  rw [← String.toList_inj, toList_text, toList_text, List.cons_inj_right] at h
  simp only at hkey hother h
  induction steps generalizing steps' with
  | nil =>
    cases steps' with
    | nil => rw [keyChars_inj h]
    | cons index steps' =>
      rw [List.flatMap_cons, List.append_assoc] at h
      exact absurd h.symm (keyChars_ne_step hkey _ _)
  | cons index steps ih =>
    cases steps' with
    | nil =>
      rw [List.flatMap_cons, List.append_assoc] at h
      exact absurd h (keyChars_ne_step hother _ _)
    | cons index' steps' =>
      simp only [List.flatMap_cons, List.append_assoc] at h
      obtain ⟨rfl, hrest⟩ := stepChars_append_inj h
      cases ih steps' hrest
      rfl

end Place

/-! ## Messages -/

namespace QueryProblem

@[simp]
theorem message_notNode (kind : String) :
    (notNode kind).message = "expected a rule or group object, found " ++ kind :=
  rfl

@[simp]
theorem message_notString (kind : String) :
    (notString kind).message = "expected a string, found " ++ kind :=
  rfl

@[simp]
theorem message_notArray : notArray.message = "expected an array" :=
  rfl

@[simp]
theorem message_missingKey : missingKey.message = "missing required key" :=
  rfl

/-- No two problems have one message: the first twelve characters tell which of the four it is. -/
theorem message_injective {problem other : QueryProblem} (h : problem.message = other.message) :
    problem = other := by
  have hstart := congrArg (fun message => message.toList.take 12) h
  cases problem <;> cases other <;> simp at h hstart ⊢ <;> exact h

end QueryProblem

theorem QueryError.message_invalidQuery (place : Place) (problem : QueryProblem) :
    (invalidQuery place problem).message =
      "invalid query at " ++ place.text ++ ": " ++ problem.message :=
  rfl

/-! ## Faults -/

namespace Json

/-- The node to which the numbers of the children on the way lead. -/
def node? : List Nat → Json → Option Json
  | [], value => some value
  | index :: steps, value =>
    match value.member? "rules" with
    | some (.array items) => items[index]?.bind (node? steps)
    | _ => none

/-- The value with another one in the place of a node. -/
def replaceNode : Json → List Nat → Json → Json
  | _, [], new => new
  | .object members, index :: steps, new =>
    match members.lookup "rules" with
    | some (.array items) =>
      .object (putEntry "rules"
        (.array (items.modify index fun item => item.replaceNode steps new)) members)
    | _ => .object members
  | value, _ :: _, _ => value

variable {members : List (String × Json)} {items : List Json}

theorem node?_group (h : members.lookup "rules" = some (.array items)) (index : Nat)
    (steps : List Nat) :
    node? (index :: steps) (.object members) = items[index]?.bind (node? steps) := by
  rw [node?, member?, h]

theorem exists_items_of_node? {value node : Json} {index : Nat} {steps : List Nat}
    (h : node? (index :: steps) value = some node) :
    ∃ members items, value = .object members ∧ members.lookup "rules" = some (.array items) ∧
      items[index]?.bind (node? steps) = some node := by
  cases value with
  | object members =>
    rw [node?, member?] at h
    split at h
    · rename_i items hrules
      exact ⟨members, items, rfl, hrules, h⟩
    · cases h
  | _ => cases h

theorem replaceNode_group (h : members.lookup "rules" = some (.array items)) (index : Nat)
    (steps : List Nat) (new : Json) :
    (object members).replaceNode (index :: steps) new =
      .object (putEntry "rules"
        (.array (items.modify index fun item => item.replaceNode steps new)) members) := by
  rw [replaceNode, h]

theorem replaceNode_of_not_group (h : ¬ ∃ items, members.lookup "rules" = some (.array items))
    (index : Nat) (steps : List Nat) (new : Json) :
    (object members).replaceNode (index :: steps) new = .object members := by
  rw [replaceNode]
  split
  · rename_i items hrules
    exact absurd ⟨items, hrules⟩ h
  · rfl

end Json

namespace Query

/-- What a message calls a value that was found in the place of another one. -/
inductive Called : Json → String → Prop
  | null : Called .null "null"
  | bool (b : Bool) : Called (.bool b) "a boolean"
  | number (n : Number) : Called (.number n) "a number"
  | string (text : String) : Called (.string text) "a string"
  | array (items : List Json) : Called (.array items) "an array"
  | object (members : List (String × Json)) : Called (.object members) "an object"

/-- A node breaks the rules of trees, at itself or at a key, in the way a message says: it is no object,
the combinator of a group is no string, its `rules` are no list, or the field or operator of a rule is
missing or no string. -/
inductive Breaks : Json → Option String → String → Prop
  | notNode {value : Json} {word : String} (notObject : ∀ members, value ≠ .object members)
      (called : Called value word) :
      Breaks value none ("expected a rule or group object, found " ++ word)
  | combinator {members : List (String × Json)} {value : Json} {word : String}
      (isGroup : members.lookup "rules" ≠ none)
      (found : members.lookup "combinator" = some value) (notString : ∀ text, value ≠ .string text)
      (called : Called value word) :
      Breaks (.object members) (some "combinator") ("expected a string, found " ++ word)
  | rules {members : List (String × Json)} {value : Json}
      (found : members.lookup "rules" = some value) (notArray : ∀ items, value ≠ .array items) :
      Breaks (.object members) (some "rules") "expected an array"
  | notString {members : List (String × Json)} {key : String} {value : Json} {word : String}
      (isRule : members.lookup "rules" = none) (isKey : key = "field" ∨ key = "operator")
      (found : members.lookup key = some value) (notString : ∀ text, value ≠ .string text)
      (called : Called value word) :
      Breaks (.object members) (some key) ("expected a string, found " ++ word)
  | missingKey {members : List (String × Json)} {key : String}
      (isRule : members.lookup "rules" = none) (isKey : key = "field" ∨ key = "operator")
      (missing : members.lookup key = none) :
      Breaks (.object members) (some key) "missing required key"

/-- The place leads to something in the value that breaks the rules of trees as the message says. -/
def FaultAt (value : Json) (place : Place) (message : String) : Prop :=
  ∃ node, value.node? place.steps = some node ∧ Breaks node place.key message

/-- The fault that comes first when the value is read. -/
structure FirstFault (value : Json) (place : Place) (message : String) : Prop where
  fault : FaultAt value place message
  first : ∀ other otherMessage, FaultAt value other otherMessage → other ≠ place →
    place.Before other

variable {value node new : Json} {members : List (String × Json)} {items : List Json}
  {place other : Place} {key : Option String} {message otherMessage : String}
  {steps : List Nat} {index : Nat} {e : QueryError}

/-- Messages use the word of the value. -/
theorem called_iff {word : String} : Called value word ↔ value.kindName = word := by
  constructor
  · intro h
    cases h <;> rfl
  · rintro rfl
    cases value <;> constructor

theorem called_kindName (value : Json) : Called value value.kindName :=
  called_iff.2 rfl

theorem Breaks.mem_readingOrder (h : Breaks node key message) : key ∈ Place.readingOrder := by
  cases h with
  | notNode => decide
  | combinator => decide
  | rules => decide
  | notString _ isKey => rcases isKey with rfl | rfl <;> decide
  | missingKey _ isKey => rcases isKey with rfl | rfl <;> decide

/-- What the problem is at a key, if there is one. -/
def problemAt (node : Json) : Option String → QueryProblem
  | none => .notNode node.kindName
  | some "rules" => .notArray
  | some key =>
    match node.member? key with
    | some value => .notString value.kindName
    | none => .missingKey

/-- At one key a node breaks the rules in one way. -/
theorem Breaks.message_eq (h : Breaks node key message) : message = (problemAt node key).message := by
  cases h with
  | notNode _ called =>
    obtain rfl := called_iff.1 called
    rfl
  | combinator _ found _ called =>
    obtain rfl := called_iff.1 called
    simp [problemAt, Json.member?, found]
  | rules => rfl
  | notString _ isKey found _ called =>
    obtain rfl := called_iff.1 called
    rcases isKey with rfl | rfl <;> simp [problemAt, Json.member?, found]
  | missingKey _ isKey missing =>
    rcases isKey with rfl | rfl <;> simp [problemAt, Json.member?, missing]

theorem faultAt_root : FaultAt value ⟨[], key⟩ message ↔ Breaks value key message := by
  simp [FaultAt, Json.node?]

/-- Behind a group the faults are those of its children. -/
theorem faultAt_child (hrules : members.lookup "rules" = some (.array items)) :
    FaultAt (.object members) ⟨index :: steps, key⟩ message ↔
      ∃ item, items[index]? = some item ∧ FaultAt item ⟨steps, key⟩ message := by
  simp only [FaultAt, Json.node?_group hrules, Option.bind_eq_some_iff]
  constructor
  · rintro ⟨node, ⟨item, hitem, hnode⟩, hbreaks⟩
    exact ⟨item, hitem, node, hnode, hbreaks⟩
  · rintro ⟨item, hitem, node, hnode, hbreaks⟩
    exact ⟨node, ⟨item, hitem, hnode⟩, hbreaks⟩

/-- Every fault is a problem that the reader can report. -/
theorem FaultAt.exists_problem (h : FaultAt value place message) :
    ∃ problem : QueryProblem, message = problem.message := by
  obtain ⟨node, -, hbreaks⟩ := h
  exact ⟨_, hbreaks.message_eq⟩

theorem FaultAt.unique (h : FaultAt value place message) (h' : FaultAt value place otherMessage) :
    message = otherMessage := by
  obtain ⟨node, hnode, hbreaks⟩ := h
  obtain ⟨node', hnode', hbreaks'⟩ := h'
  cases hnode.symm.trans hnode'
  exact hbreaks.message_eq.trans hbreaks'.message_eq.symm

/-- There is one first fault at most. -/
theorem FirstFault.unique (h : FirstFault value place message)
    (h' : FirstFault value other otherMessage) : place = other ∧ message = otherMessage := by
  have hplace : place = other := by
    by_contra hne
    exact (h.first _ _ h'.fault (Ne.symm hne)).asymm (h'.first _ _ h.fault hne)
  subst hplace
  exact ⟨rfl, h.fault.unique h'.fault⟩

/-- A group can break the rules at its combinator and at its list of children. -/
theorem Breaks.of_group (hgroup : members.lookup "rules" ≠ none)
    (h : Breaks (.object members) key message) :
    (key = some "combinator" ∧
        ∃ value, members.lookup "combinator" = some value ∧ ∀ text, value ≠ .string text) ∨
      key = some "rules" ∧ ∀ items, members.lookup "rules" ≠ some (.array items) := by
  cases h with
  | notNode notObject _ => exact absurd rfl (notObject members)
  | combinator _ found notString _ => exact .inl ⟨rfl, _, found, notString⟩
  | rules found notArray =>
    refine .inr ⟨rfl, fun items hitems => ?_⟩
    cases found.symm.trans hitems
    exact notArray items rfl
  | notString isRule => exact absurd isRule hgroup
  | missingKey isRule => exact absurd isRule hgroup

/-- A rule can break the rules at its field and at its operator. -/
theorem Breaks.of_rule (hrule : members.lookup "rules" = none)
    (h : Breaks (.object members) key message) :
    ∃ name, key = some name ∧ (name = "field" ∨ name = "operator") ∧
      ∀ text, members.lookup name ≠ some (.string text) := by
  cases h with
  | notNode notObject _ => exact absurd rfl (notObject members)
  | combinator isGroup => exact absurd hrule isGroup
  | rules found => cases hrule.symm.trans found
  | notString _ isKey found notString _ =>
    refine ⟨_, rfl, isKey, fun text htext => ?_⟩
    cases found.symm.trans htext
    exact notString text rfl
  | missingKey _ isKey missing =>
    refine ⟨_, rfl, isKey, fun text htext => ?_⟩
    cases missing.symm.trans htext

/-- A value of the grammar has no fault. -/
theorem not_faultAt_of_isNode (h : IsNode value) : ¬ FaultAt value place message := by
  obtain ⟨steps, key⟩ := place
  induction h generalizing steps with
  | @group members items hrules hcombinator _ ih =>
    intro hfault
    cases steps with
    | nil =>
      rcases (faultAt_root.1 hfault).of_group (by simp [hrules]) with ⟨-, value, hvalue, hnot⟩ | ⟨-, hnot⟩
      · rcases hcombinator with hnone | ⟨name, hname⟩
        · cases hnone.symm.trans hvalue
        · cases hname.symm.trans hvalue
          exact hnot name rfl
      · exact hnot items hrules
    | cons index steps =>
      obtain ⟨item, hitem, hfault⟩ := (faultAt_child hrules).1 hfault
      exact ih item (List.mem_of_getElem? hitem) steps hfault
  | @rule members field operator hrules hfield hoperator =>
    intro hfault
    cases steps with
    | nil =>
      obtain ⟨name, -, rfl | rfl, hnot⟩ := (faultAt_root.1 hfault).of_rule hrules
      · exact hnot field hfield
      · exact hnot operator hoperator
    | cons index steps =>
      obtain ⟨node, hnode, -⟩ := hfault
      obtain ⟨members', items, heq, hitems, -⟩ := Json.exists_items_of_node? hnode
      cases heq
      cases hrules.symm.trans hitems

/-! ## The first fault of a node -/

/-- What a node itself breaks comes before all that is behind it. -/
theorem firstFault_root (h : Breaks value key message)
    (hfirst : ∀ other otherMessage, Breaks value other otherMessage → other ≠ key →
      Place.readingOrder.idxOf key < Place.readingOrder.idxOf other) :
    FirstFault value ⟨[], key⟩ message := by
  refine ⟨faultAt_root.2 h, ?_⟩
  rintro ⟨steps, other⟩ otherMessage hfault hne
  cases steps with
  | nil =>
    refine .inr ⟨rfl, hfirst other otherMessage (faultAt_root.1 hfault) ?_⟩
    rintro rfl
    exact hne rfl
  | cons index steps => exact .inl (List.nil_lt_cons index steps)

/-- In a group that breaks nothing itself the first fault is the first one of a child, if nothing is
wrong with the children before it. -/
theorem firstFault_group {before after : List Json} {item : Json}
    (hrules : members.lookup "rules" = some (.array (before ++ item :: after)))
    (hcombinator : ∀ value, members.lookup "combinator" = some value → ∃ text, value = .string text)
    (hbefore : ∀ other ∈ before, IsNode other) (hitem : FirstFault item place message) :
    FirstFault (.object members) ⟨before.length :: place.steps, place.key⟩ message := by
  constructor
  · exact (faultAt_child hrules).2 ⟨item, by simp, hitem.fault⟩
  rintro ⟨steps, key⟩ otherMessage hfault hne
  cases steps with
  | nil =>
    rcases (faultAt_root.1 hfault).of_group (by simp [hrules]) with ⟨-, value, hvalue, hnot⟩ | ⟨-, hnot⟩
    · obtain ⟨text, htext⟩ := hcombinator value hvalue
      exact absurd htext (hnot text)
    · exact absurd hrules (hnot _)
  | cons index steps =>
    obtain ⟨sibling, hsibling, hfault⟩ := (faultAt_child hrules).1 hfault
    rcases Nat.lt_trichotomy index before.length with hlt | rfl | hlt
    · rw [List.getElem?_append_left hlt] at hsibling
      exact absurd hfault (not_faultAt_of_isNode (hbefore sibling (List.mem_of_getElem? hsibling)))
    · rw [List.getElem?_append_right (Nat.le_refl _), Nat.sub_self] at hsibling
      cases hsibling
      have hne : (⟨steps, key⟩ : Place) ≠ place := by
        rintro rfl
        exact hne rfl
      rcases hitem.first _ otherMessage hfault hne with hlt | ⟨heq, hlt⟩
      · exact .inl (List.cons_lt_cons_iff.2 (.inr ⟨rfl, hlt⟩))
      · exact .inr ⟨congrArg (before.length :: ·) heq, hlt⟩
    · exact .inl (List.cons_lt_cons_iff.2 (.inl hlt))

/-! ## What the reader reports -/

/-- The key of a rule at which the reader stops is at fault. -/
theorem breaks_of_requiredText {name : String} (hrules : members.lookup "rules" = none)
    (hname : name = "field" ∨ name = "operator")
    (h : requiredText place name members = .error e) :
    ∃ problem, e = .invalidQuery (place.at name) problem ∧
      Breaks (.object members) (some name) problem.message := by
  unfold requiredText at h
  split at h
  · cases h
  · rename_i value hnot hfound
    cases h
    exact ⟨_, rfl, .notString hrules hname hfound hnot (called_kindName value)⟩
  · rename_i hmissing
    cases h
    exact ⟨_, rfl, .missingKey hrules hname hmissing⟩

theorem breaks_of_readCombinator (hrules : members.lookup "rules" ≠ none)
    (h : readCombinator place members = .error e) :
    ∃ problem, e = .invalidQuery (place.at "combinator") problem ∧
      Breaks (.object members) (some "combinator") problem.message := by
  unfold readCombinator at h
  split at h
  · cases h
  · cases h
  · rename_i value hnot hfound
    cases h
    exact ⟨_, rfl, .combinator hrules hfound hnot (called_kindName value)⟩

/-- The reader stops at `rules` if that is no list. -/
theorem childrenIn_of_not_array (hfound : members.lookup "rules" = some value)
    (hnot : ∀ items, value ≠ .array items) :
    childrenIn place members = .error (.invalidQuery (place.at "rules") .notArray) := by
  induction members with
  | nil => cases hfound
  | cons member members ih =>
    obtain ⟨name, other⟩ := member
    by_cases hname : name = "rules"
    · subst hname
      obtain rfl : other = value := by simpa using hfound
      cases other with
      | array items => exact absurd rfl (hnot items)
      | _ => simp [childrenIn]
    · rw [List.lookup_cons, beq_eq_false_iff_ne.2 (Ne.symm hname)] at hfound
      rw [childrenIn_cons_of_ne hname, ih hfound]

/-- The reader stops at the first child that is no node. -/
theorem childrenOf_eq_error {above : List Nat}
    (h : childrenOf ⟨above, none⟩ index items = .error e) :
    ∃ before item after, items = before ++ item :: after ∧ (∀ other ∈ before, IsNode other) ∧
      ofJsonAt ⟨above ++ [index + before.length], none⟩ item = .error e := by
  induction items generalizing index with
  | nil => cases h
  | cons item items ih =>
    rw [childrenOf_cons] at h
    rcases Except.bind_eq_error.1 h with h | ⟨child, hchild, h⟩
    · exact ⟨[], item, items, rfl, nofun, h⟩
    · obtain ⟨before, other, after, rfl, hbefore, hother⟩ := ih (Except.map_eq_error.1 h)
      refine ⟨item :: before, other, after, rfl, ?_, ?_⟩
      · exact List.forall_mem_cons.2 ⟨(keeps_of_ofJsonAt item _ child hchild).isNode, hbefore⟩
      · rwa [List.length_cons, Nat.add_comm before.length, ← Nat.add_assoc]

/-- An object without `rules` is refused for its field, or else for its operator. -/
theorem firstFault_of_readRule (hrules : members.lookup "rules" = none)
    (h : readRule place members = .error e) :
    ∃ name problem, e = .invalidQuery (place.at name) problem ∧
      FirstFault (.object members) ⟨[], some name⟩ problem.message := by
  have hkeys {other : Option String} {otherMessage : String}
      (hbreaks : Breaks (.object members) other otherMessage) :=
    hbreaks.of_rule hrules
  rcases Except.bind_eq_error.1 h with h | ⟨field, hfield, h⟩
  · obtain ⟨problem, rfl, hbreaks⟩ := breaks_of_requiredText hrules (.inl rfl) h
    refine ⟨"field", problem, rfl, firstFault_root hbreaks ?_⟩
    intro other otherMessage hother hne
    obtain ⟨name, rfl, rfl | rfl, -⟩ := hkeys hother
    · exact absurd rfl hne
    · decide
  · rcases Except.bind_eq_error.1 h with h | ⟨operator, hoperator, h⟩
    · obtain ⟨problem, rfl, hbreaks⟩ := breaks_of_requiredText hrules (.inr rfl) h
      refine ⟨"operator", problem, rfl, firstFault_root hbreaks ?_⟩
      intro other otherMessage hother hne
      obtain ⟨name, rfl, rfl | rfl, hnot⟩ := hkeys hother
      · exact absurd (requiredText_eq_ok.1 hfield) (hnot field)
      · exact absurd rfl hne
    · cases h

/-- The combinator of a group is read before anything else of it. -/
theorem firstFault_of_readCombinator (hgroup : members.lookup "rules" ≠ none)
    (h : readCombinator place members = .error e) :
    ∃ problem, e = .invalidQuery (place.at "combinator") problem ∧
      FirstFault (.object members) ⟨[], some "combinator"⟩ problem.message := by
  obtain ⟨problem, rfl, hbreaks⟩ := breaks_of_readCombinator hgroup h
  refine ⟨problem, rfl, firstFault_root hbreaks ?_⟩
  intro other otherMessage hother hne
  rcases hother.of_group hgroup with ⟨rfl, -⟩ | ⟨rfl, -⟩
  · exact absurd rfl hne
  · decide

/-- Behind a combinator that can be read, `rules` that is no list is the first fault. -/
theorem firstFault_rules (hrules : members.lookup "rules" = some value)
    (hnot : ∀ items, value ≠ .array items)
    (hcombinator : ∀ value, members.lookup "combinator" = some value →
      ∃ text, value = .string text) :
    FirstFault (.object members) ⟨[], some "rules"⟩ "expected an array" := by
  refine firstFault_root (.rules hrules hnot) ?_
  intro other otherMessage hother hne
  rcases hother.of_group (by simp [hrules]) with ⟨-, value, hvalue, hnot⟩ | ⟨rfl, -⟩
  · obtain ⟨text, htext⟩ := hcombinator value hvalue
    exact absurd htext (hnot text)
  · exact absurd rfl hne

/-- A combinator that can be read is a text, if it is there. -/
theorem text_of_readCombinator {combinator : Combinator}
    (h : readCombinator place members = .ok combinator) :
    ∀ value, members.lookup "combinator" = some value → ∃ text, value = .string text := by
  intro value hvalue
  rcases readCombinator_eq_ok.1 h with ⟨hnone, -⟩ | ⟨name, hname, -⟩
  · cases hnone.symm.trans hvalue
  · exact ⟨name, Option.some.inj (hvalue.symm.trans hname)⟩

/-- A value that is no object has no fault but itself. -/
theorem firstFault_notNode (hvalue : ∀ members, value ≠ .object members) :
    FirstFault value ⟨[], none⟩ (QueryProblem.notNode value.kindName).message := by
  refine firstFault_root (.notNode hvalue (called_kindName value)) ?_
  intro other otherMessage hother hne
  cases hother with
  | notNode => exact absurd rfl hne
  | combinator => exact absurd rfl (hvalue _)
  | rules => exact absurd rfl (hvalue _)
  | notString => exact absurd rfl (hvalue _)
  | missingKey => exact absurd rfl (hvalue _)

/-- What the reader reports of a value is its first fault, behind the way to the value. -/
theorem firstFault_of_ofJsonAt (value : Json) : ∀ (above : List Nat) (e : QueryError),
    ofJsonAt ⟨above, none⟩ value = .error e →
      ∃ place problem, e = .invalidQuery ⟨above ++ place.steps, place.key⟩ problem ∧
        FirstFault value place problem.message := by
  induction value using rulesInduction with
  | object members ih =>
    intro above e h
    cases hrules : members.lookup "rules" with
    | none =>
      rw [ofJsonAt_rule hrules] at h
      obtain ⟨name, problem, rfl, hfirst⟩ := firstFault_of_readRule hrules (Except.map_eq_error.1 h)
      exact ⟨⟨[], some name⟩, problem, by simp [Place.at], hfirst⟩
    | some value =>
      rw [ofJsonAt, if_pos (by simp [hrules])] at h
      cases hread : readCombinator ⟨above, none⟩ members with
      | error fault =>
        rw [hread] at h
        cases h
        obtain ⟨problem, rfl, hfirst⟩ := firstFault_of_readCombinator (by simp [hrules]) hread
        exact ⟨_, problem, by simp [Place.at], hfirst⟩
      | ok combinator =>
        rw [hread] at h
        have h := Except.map_eq_error.1 h
        have hcombinator := text_of_readCombinator hread
        by_cases harray : ∃ items, value = .array items
        · obtain ⟨items, rfl⟩ := harray
          rw [childrenIn_of_lookup hrules] at h
          obtain ⟨before, item, after, rfl, hbefore, hitem⟩ := childrenOf_eq_error h
          obtain ⟨place, problem, rfl, hfirst⟩ := ih _ hrules item (by simp) _ e hitem
          refine ⟨⟨before.length :: place.steps, place.key⟩, problem, by simp, ?_⟩
          exact firstFault_group hrules hcombinator hbefore hfirst
        · have hnot : ∀ items, value ≠ .array items := fun items heq => harray ⟨items, heq⟩
          rw [childrenIn_of_not_array hrules hnot] at h
          cases h
          exact ⟨_, .notArray, by simp [Place.at], firstFault_rules hrules hnot hcombinator⟩
  | other value hvalue =>
    intro above e h
    have hreport : ofJsonAt ⟨above, none⟩ value =
        .error (.invalidQuery ⟨above, none⟩ (.notNode value.kindName)) := by
      cases value with
      | object members => exact absurd rfl (hvalue members)
      | _ => rfl
    rw [hreport] at h
    cases h
    exact ⟨_, _, by simp, firstFault_notNode hvalue⟩

/-- Exactly a value with a fault is refused, and its first fault is what is reported. -/
theorem ofJson_eq_error_iff :
    ofJson value = .error e ↔
      ∃ place problem, e = .invalidQuery place problem ∧
        FirstFault value place problem.message := by
  constructor
  · intro h
    obtain ⟨place, problem, rfl, hfirst⟩ := firstFault_of_ofJsonAt value [] e h
    exact ⟨place, problem, by simp, hfirst⟩
  · rintro ⟨place, problem, rfl, hfirst⟩
    cases hread : ofJson value with
    | ok query =>
      have hnode := (keeps_of_ofJsonAt value .root query hread).isNode
      exact absurd hfirst.fault (not_faultAt_of_isNode hnode)
    | error e =>
      obtain ⟨other, otherProblem, rfl, hother⟩ := firstFault_of_ofJsonAt value [] e hread
      obtain ⟨rfl, hmessage⟩ := hother.unique hfirst
      obtain rfl := QueryProblem.message_injective hmessage
      rfl

/-! ## What comes later -/

/-- Whether a group breaks the rules at a key does not depend on its children. -/
theorem Breaks.of_children {members' : List (String × Json)} {items' : List Json}
    (hkeys : ∀ name ≠ "rules", members'.lookup name = members.lookup name)
    (hrules : members.lookup "rules" = some (.array items))
    (hrules' : members'.lookup "rules" = some (.array items'))
    (h : Breaks (.object members) key message) : Breaks (.object members') key message := by
  cases h with
  | notNode notObject _ => exact absurd rfl (notObject members)
  | combinator _ found notString called =>
    exact .combinator (by simp [hrules']) ((hkeys "combinator" (by decide)).trans found) notString
      called
  | rules found notArray =>
    cases hrules.symm.trans found
    exact absurd rfl (notArray items)
  | notString isRule => cases hrules.symm.trans isRule
  | missingKey isRule => cases hrules.symm.trans isRule

/-- The faults that come before a node, those of the nodes around it among them, do not depend on the
node. -/
theorem faultAt_replaceNode (hlt : place.steps < steps) :
    FaultAt (value.replaceNode steps new) place message ↔ FaultAt value place message := by
  obtain ⟨target, key⟩ := place
  induction steps generalizing value target with
  | nil => exact absurd hlt (List.not_lt_nil _)
  | cons index steps ih =>
    cases value with
    | object members =>
      by_cases hgroup : ∃ items, members.lookup "rules" = some (.array items)
      · obtain ⟨items, hrules⟩ := hgroup
        rw [Json.replaceNode_group hrules]
        have hrules' := lookup_putEntry "rules" "rules"
          (.array (items.modify index fun item => item.replaceNode steps new)) members
        rw [if_pos rfl] at hrules'
        cases target with
        | nil =>
          have hkeys : ∀ name ≠ "rules",
              (putEntry "rules" (.array (items.modify index fun item => item.replaceNode steps new))
                members).lookup name = members.lookup name := by
            intro name hname
            rw [lookup_putEntry, if_neg hname]
          rw [faultAt_root, faultAt_root]
          exact ⟨fun h => h.of_children (fun name hname => (hkeys name hname).symm) hrules' hrules,
            fun h => h.of_children hkeys hrules hrules'⟩
        | cons first target =>
          rw [faultAt_child hrules', faultAt_child hrules, List.getElem?_modify]
          rcases List.cons_lt_cons_iff.1 hlt with hfirst | ⟨rfl, hbehind⟩
          · simp [Nat.ne_of_gt hfirst]
          · simp [ih target hbehind]
      · rw [Json.replaceNode_of_not_group hgroup]
    | _ => rfl

/-- What comes behind the first fault can be replaced by anything. -/
theorem FirstFault.replaceNode (h : FirstFault value place message) (hlt : place.steps < steps)
    (new : Json) : FirstFault (value.replaceNode steps new) place message where
  fault := (faultAt_replaceNode hlt).2 h.fault
  first other otherMessage hfault hne := by
    by_cases hother : other.steps < steps
    · exact h.first other otherMessage ((faultAt_replaceNode hother).1 hfault) hne
    · exact .inl (List.not_le.1 fun hle =>
        hother (List.lt_of_le_of_lt hle hlt))

/-- Exactly a value with a fault is refused, and what is reported is its first fault in the order of
reading: the error is shown with the place, whose text can be read in one way, and with the message that
says how the rules are broken there. Nothing that comes behind the place has any influence on it. -/
theorem ofJson_first_fault (value : Json) :
    (∀ e, ofJson value = .error e ↔
      ∃ place problem, e = .invalidQuery place problem ∧ FirstFault value place problem.message) ∧
    ∀ place message, FirstFault value place message →
      (place.key ∈ Place.readingOrder ∧ ∀ other : Place, other.key ∈ Place.readingOrder →
        other.text = place.text → other = place) ∧
      place.text =
        "$" ++ String.join (place.steps.map fun index => ".rules[" ++ toString index ++ "]") ++
          place.key.elim "" ("." ++ ·) ∧
      ∃ e, ofJson value = .error e ∧
        e.message = "invalid query at " ++ place.text ++ ": " ++ message ∧
        ∀ steps new, place.steps < steps → ofJson (value.replaceNode steps new) = .error e := by
  refine ⟨fun e => ofJson_eq_error_iff, fun place message hfirst => ⟨?_, place.text_eq, ?_⟩⟩
  · obtain ⟨node, -, hbreaks⟩ := hfirst.fault
    have hkey := hbreaks.mem_readingOrder
    exact ⟨hkey, fun other hother htext => Place.text_injective hkey hother htext⟩
  · obtain ⟨problem, rfl⟩ := hfirst.fault.exists_problem
    refine ⟨.invalidQuery place problem, ofJson_eq_error_iff.2 ⟨place, problem, rfl, hfirst⟩,
      QueryError.message_invalidQuery place problem, ?_⟩
    intro steps new hlt
    exact ofJson_eq_error_iff.2 ⟨place, problem, rfl, hfirst.replaceNode hlt new⟩

/-- A value with three faults: an operator that is no string, a child that is null, and a rule without
a field. -/
def faultyValue : Json :=
  .object [("combinator", .string "or"), ("rules", .array [
    .object [("field", .string "name"), ("operator", .string "=")],
    .object [("rules", .array [
      .object [("field", .string "name"), ("operator", .bool true)], .null])],
    .object [("operator", .string "=")]])]

theorem ofJson_first_fault_operator :
    FirstFault faultyValue ⟨[1, 0], some "operator"⟩ "expected a string, found a boolean" ∧
      ∃ e, ofJson faultyValue = .error e ∧
        e.message =
          "invalid query at $.rules[1].rules[0].operator: expected a string, found a boolean" ∧
        ∀ new, ofJson (faultyValue.replaceNode [2] new) = .error e := by
  have herror : ofJson faultyValue =
      .error (.invalidQuery ⟨[1, 0], some "operator"⟩ (.notString "a boolean")) := rfl
  obtain ⟨hreports, hreported⟩ := ofJson_first_fault faultyValue
  obtain ⟨place, problem, heq, hfirst⟩ := (hreports _).1 herror
  cases heq
  obtain ⟨-, -, e, he, hmessage, hlater⟩ := hreported _ _ hfirst
  exact ⟨hfirst, e, he, hmessage.trans (by decide), fun new => hlater [2] new (by decide)⟩

end Query

end RecordQuery
