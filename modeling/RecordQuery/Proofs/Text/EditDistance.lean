/-
RecordQuery.Proofs.Text.EditDistance — the distance is the least number of edits.

An edit inserts, deletes or substitutes one character, anywhere in a word. The
rows come down to a recurrence on the first characters of the two words
(`editDistance_cons_cons`), and the rest speaks of the recurrence alone. One edit
changes the distance to any third word by at most one, so no sequence of edits
is shorter than the distance between its ends; and each of the three terms of the
recurrence is an instruction for the first character, so the instructions of the
least terms are a sequence of that length.

Main definitions:
* `Edit`, `Edits` — one edit, and so many of them one after the other;
* `EditsApart` — how many edits it takes at least.

Main statements:
* `editDistance_le_of_edit`, `Edits.editDistance_le` — no sequence is shorter;
* `edits_editDistance` — some sequence is as long;
* `editsApart_iff` — the distance is the least number of edits.
-/
import RecordQuery.Text.EditDistance
import Mathlib.Order.Bounds.Basic

namespace RecordQuery

/-! ## Edits -/

/-- One edit of a word: a character is inserted, deleted or substituted, at the front or later. -/
inductive Edit : List Char → List Char → Prop
  | insert (c : Char) (cs : List Char) : Edit cs (c :: cs)
  | delete (c : Char) (cs : List Char) : Edit (c :: cs) cs
  | substitute (c d : Char) (cs : List Char) : Edit (c :: cs) (d :: cs)
  | later (c : Char) {cs ds : List Char} (edit : Edit cs ds) : Edit (c :: cs) (c :: ds)

/-- A word is turned into another by a number of edits, one after the other. -/
inductive Edits : Nat → List Char → List Char → Prop
  | none (cs : List Char) : Edits 0 cs cs
  | step {n : Nat} {cs ds es : List Char} (edit : Edit cs ds) (more : Edits n ds es) :
    Edits (n + 1) cs es

/-- It takes `n` edits, and no fewer, to turn a word into another. -/
def EditsApart (n : Nat) (cs ds : List Char) : Prop := IsLeast {k | Edits k cs ds} n

variable {n : Nat} {cs ds : List Char}

/-- What is done to the rest of a word is done to the word. -/
theorem Edits.later (c : Char) (h : Edits n cs ds) : Edits n (c :: cs) (c :: ds) := by
  induction h with
  | none cs => exact .none (c :: cs)
  | step edit _ ih => exact .step (.later c edit) ih

/-! ## The recurrence -/

/-- The row for a shorter suffix stands in the row for a longer one. -/
theorem tail_distanceRow (cs : List Char) (d : Char) (ds : List Char) :
    (distanceRow cs (d :: ds)).tail = distanceRow cs ds := by
  induction cs with
  | nil => rfl
  | cons c cs ih =>
    show extendRow c ds (distanceRow cs (d :: ds)).tail = extendRow c ds (distanceRow cs ds)
    rw [ih]

theorem editDistance_nil_left (ds : List Char) : editDistance [] ds = ds.length := by
  cases ds <;> rfl

theorem editDistance_nil_right (cs : List Char) : editDistance cs [] = cs.length := by
  induction cs with
  | nil => rfl
  | cons c cs ih => exact congrArg (· + 1) ih

/-- The first character is substituted or kept, or deleted, or another is inserted before it. -/
theorem editDistance_cons_cons (c d : Char) (cs ds : List Char) :
    editDistance (c :: cs) (d :: ds) =
      min (editDistance cs ds + if c = d then 0 else 1)
        (min (editDistance cs (d :: ds) + 1) (editDistance (c :: cs) ds + 1)) := by
  have hrow := tail_distanceRow cs d ds
  simp only [editDistance]
  show (extendRow c (d :: ds) (distanceRow cs (d :: ds))).headD 0 = _
  rw [extendRow, hrow]
  rfl

theorem editDistance_cons_left_le (c : Char) (cs ds : List Char) :
    editDistance (c :: cs) ds ≤ editDistance cs ds + 1 := by
  cases ds with
  | nil => simp [editDistance_nil_right]
  | cons d ds =>
    rw [editDistance_cons_cons]
    exact Nat.le_trans (Nat.min_le_right _ _) (Nat.min_le_left _ _)

theorem editDistance_cons_right_le (cs : List Char) (d : Char) (ds : List Char) :
    editDistance cs (d :: ds) ≤ editDistance cs ds + 1 := by
  cases cs with
  | nil => simp [editDistance_nil_left]
  | cons c cs =>
    rw [editDistance_cons_cons]
    exact Nat.le_trans (Nat.min_le_right _ _) (Nat.min_le_right _ _)

/-! ## No sequence is shorter -/

theorem editDistance_self (cs : List Char) : editDistance cs cs = 0 := by
  induction cs with
  | nil => rfl
  | cons c cs ih => rw [editDistance_cons_cons, ih, if_pos rfl, Nat.zero_min]

/-- One edit saves at most one edit on the way to any other word. -/
theorem editDistance_le_of_edit (h : Edit cs ds) (es : List Char) :
    editDistance cs es ≤ editDistance ds es + 1 := by
  induction h generalizing es with
  | insert c cs =>
    induction es with
    | nil =>
      simp only [editDistance_nil_right, List.length_cons]
      omega
    | cons e es ih =>
      have hinsert := editDistance_cons_right_le cs e es
      rw [editDistance_cons_cons]
      omega
  | delete c cs => exact editDistance_cons_left_le c cs es
  | substitute c d cs =>
    induction es with
    | nil => simp [editDistance_nil_right]
    | cons e es ih =>
      rw [editDistance_cons_cons, editDistance_cons_cons]
      split <;> split <;> omega
  | later c _ ih =>
    induction es with
    | nil => simpa [editDistance_nil_right] using ih []
    | cons e es ihes =>
      have hrest := ih es
      have hall := ih (e :: es)
      rw [editDistance_cons_cons, editDistance_cons_cons]
      omega

/-- No sequence of edits is shorter than the distance between its ends. -/
theorem Edits.editDistance_le (h : Edits n cs ds) : editDistance cs ds ≤ n := by
  induction h with
  | none cs => exact Nat.le_of_eq (editDistance_self cs)
  | step edit _ ih => exact Nat.le_trans (editDistance_le_of_edit edit _) (Nat.succ_le_succ ih)

/-! ## Some sequence is as long -/

/-- Of two sequences there is a shorter one. -/
theorem edits_min {m : Nat} (hm : Edits m cs ds) (hn : Edits n cs ds) :
    Edits (min m n) cs ds := by
  rw [Nat.min_def]
  split
  · exact hm
  · exact hn

/-- The recurrence, read as instructions for the first character, tells how to get there. -/
theorem edits_editDistance (cs ds : List Char) : Edits (editDistance cs ds) cs ds := by
  induction cs generalizing ds with
  | nil =>
    induction ds with
    | nil => exact .none []
    | cons d ds ih =>
      rw [editDistance_nil_left] at ih ⊢
      exact .step (.insert d []) (ih.later d)
  | cons c cs ih =>
    induction ds with
    | nil =>
      have hrest := ih []
      rw [editDistance_nil_right] at hrest ⊢
      exact .step (.delete c cs) hrest
    | cons d ds ihds =>
      have hfirst : Edits (editDistance cs ds + if c = d then 0 else 1) (c :: cs) (d :: ds) := by
        split
        · rename_i heq
          exact heq ▸ (ih ds).later c
        · exact .step (.substitute c d cs) ((ih ds).later d)
      have hdelete : Edits (editDistance cs (d :: ds) + 1) (c :: cs) (d :: ds) :=
        .step (.delete c cs) (ih (d :: ds))
      have hinsert : Edits (editDistance (c :: cs) ds + 1) (c :: cs) (d :: ds) :=
        .step (.insert d (c :: cs)) (ihds.later d)
      rw [editDistance_cons_cons]
      exact edits_min hfirst (edits_min hdelete hinsert)

/-- The distance is the least number of edits. -/
theorem editsApart_iff : EditsApart n cs ds ↔ n = editDistance cs ds := by
  have hleast : EditsApart (editDistance cs ds) cs ds :=
    ⟨edits_editDistance cs ds, fun _ h => Edits.editDistance_le h⟩
  constructor
  · exact fun h => h.unique hleast
  · rintro rfl
    exact hleast

/-- Only a word itself is no edit away. -/
theorem editDistance_eq_zero_iff : editDistance cs ds = 0 ↔ cs = ds := by
  constructor
  · intro h
    have hedits := edits_editDistance cs ds
    rw [h] at hedits
    cases hedits
    rfl
  · rintro rfl
    exact editDistance_self cs

end RecordQuery
