/-
RecordQuery.Proofs.Text.Columns — what is cut from a line and what is put into it.

Trailing blanks are cut from a line and nothing else. A text that is not too long
for a column fills it exactly, with nothing but spaces behind the text; of a text
that is too long nothing but dots stands for what is left out.

Main statements:
* `exists_trimEnd_append`, `isBlank_of_mem_getLast?_trimEnd` — what is cut;
* `trimEnd_append_of_blank`, `trimEnd_append_of_not_blank`;
* `length_padTo`, `not_mem_padTo`, `not_mem_clip`.
-/
import Mathlib.Data.List.DropRight
import RecordQuery.Text.Blank
import RecordQuery.Text.Columns

namespace RecordQuery

/-! ## Trailing blanks -/

section Trim

variable {text more : List Char} {c : Char}

/-- What is cut from a line is its trailing blanks. -/
theorem exists_trimEnd_append (text : List Char) :
    ∃ blanks, (∀ c ∈ blanks, isBlank c = true) ∧ trimEnd text ++ blanks = text :=
  ⟨_, fun _ => List.mem_rtakeWhile_imp, List.rdropWhile_append_rtakeWhile⟩

/-- A line that is trimmed does not end in a blank. -/
theorem isBlank_of_mem_getLast?_trimEnd (h : c ∈ (trimEnd text).getLast?) : isBlank c = false := by
  obtain ⟨hne, hlast⟩ := List.mem_getLast?_eq_getLast h
  rw [hlast]
  exact eq_false_of_ne_true (List.rdropWhile_last_not isBlank text hne)

theorem trimEnd_eq_nil_iff : trimEnd text = [] ↔ ∀ c ∈ text, isBlank c = true :=
  List.rdropWhile_eq_nil_iff

/-- Blanks behind a line are cut off with those at its end. -/
theorem trimEnd_append_of_blank (h : ∀ c ∈ more, isBlank c = true) :
    trimEnd (text ++ more) = trimEnd text := by
  unfold trimEnd
  rw [List.reverse_append, List.dropWhile_append_of_pos fun c hc => h c (List.mem_reverse.1 hc)]

/-- Where something follows that is not all blank, a line is kept whole. -/
theorem trimEnd_append_of_not_blank (h : ¬ ∀ c ∈ more, isBlank c = true) :
    trimEnd (text ++ more) = text ++ trimEnd more := by
  have hne : ¬ (more.reverse.dropWhile isBlank).isEmpty = true := by
    rw [List.isEmpty_iff, List.dropWhile_eq_nil_iff]
    exact fun hall => h fun c hc => hall c (List.mem_reverse.2 hc)
  unfold trimEnd
  rw [List.reverse_append, List.dropWhile_append, if_neg hne, List.reverse_append,
    List.reverse_reverse]

/-- What is cut from a line did not stand elsewhere in it. -/
theorem mem_of_mem_trimEnd (h : c ∈ trimEnd text) : c ∈ text :=
  (List.rdropWhile_prefix isBlank text).subset h

end Trim

/-! ## Columns -/

section Columns

variable {width : Nat} {text : List Char} {c : Char}

theorem length_padTo (h : text.length ≤ width) : (padTo width text).length = width := by
  simp only [padTo, filler, List.length_append, List.length_replicate]
  omega

/-- Only spaces are put behind a text. -/
theorem not_mem_filler (hc : c ≠ ' ') (length width : Nat) : c ∉ filler length width :=
  fun hmem => hc (List.eq_of_mem_replicate hmem)

theorem not_mem_padTo (hc : c ≠ ' ') (h : c ∉ text) (width : Nat) : c ∉ padTo width text := by
  unfold padTo
  rw [List.mem_append, not_or]
  exact ⟨h, not_mem_filler hc _ _⟩

/-- Only dots are put in the place of what is cut from a text. -/
theorem not_mem_clip (hc : c ≠ '.') (h : c ∉ text) (width : Nat) : c ∉ clip width text := by
  unfold clip
  split
  · rw [List.mem_append, not_or]
    exact ⟨fun hmem => h (List.mem_of_mem_take hmem), by simp [hc]⟩
  · exact h

end Columns

end RecordQuery
