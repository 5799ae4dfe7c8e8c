/-
RecordQuery.Proofs.Json.Control — compact text has no control characters.

Control characters are escaped in strings, and the compact layout puts none
between the tokens. So the text of a value goes on one line, and no sequence of
a terminal can begin in it, whatever the strings in the value are.

Main definitions:
* `NoControl`.

Main statements:
* `Json.noControl_numberChars`, `Json.noControl_stringChars`;
* `Json.noControl_chars` — the compact text of a value.
-/
import RecordQuery.Proofs.Json.Double
import RecordQuery.Proofs.Json.Unambiguous

namespace RecordQuery

/-- No character of a text stands before the space. -/
def NoControl (text : List Char) : Prop := ∀ c ∈ text, 0x20 ≤ c.toNat

namespace NoControl

variable {c : Char} {text more : List Char}

theorem nil : NoControl [] := List.forall_mem_nil _

theorem cons (hc : 0x20 ≤ c.toNat) (h : NoControl text) : NoControl (c :: text) :=
  List.forall_mem_cons.2 ⟨hc, h⟩

theorem append (h : NoControl text) (hmore : NoControl more) : NoControl (text ++ more) :=
  List.forall_mem_append.2 ⟨h, hmore⟩

theorem take (h : NoControl text) (n : Nat) : NoControl (text.take n) :=
  fun c hc => h c (List.mem_of_mem_take hc)

theorem drop (h : NoControl text) (n : Nat) : NoControl (text.drop n) :=
  fun c hc => h c (List.mem_of_mem_drop hc)

theorem not_mem (h : NoControl text) (hc : c.toNat < 0x20) : c ∉ text :=
  fun hmem => absurd (h c hmem) (Nat.not_le.2 hc)

end NoControl

namespace Json

variable {digits : List Char}

/-! ## Numbers -/

theorem IsDigits.noControl (h : IsDigits digits) : NoControl digits := by
  intro c hc
  have hdigit := h c hc
  simp only [Char.isDigit, Bool.and_eq_true, decide_eq_true_eq] at hdigit
  have hlow : 48 ≤ c.toNat := hdigit.1
  omega

theorem noControl_toDigits (n : Nat) : NoControl (Nat.toDigits 10 n) :=
  (isDigits_toDigits n).noControl

theorem noControl_signChars (negative : Bool) : NoControl (signChars negative) := by
  cases negative <;> simp [signChars, NoControl]

theorem noControl_positional (d : Decimal) : NoControl (d.positional ['.', '0']) := by
  have hdigits := noControl_toDigits d.digits
  unfold Decimal.positional
  dsimp only
  split
  · exact (hdigits.append (isDigits_zeros _).noControl).append (by simp [NoControl])
  · split
    · exact .cons (by decide) (.cons (by decide) ((isDigits_zeros _).noControl.append hdigits))
    · exact (hdigits.take _).append (.cons (by decide) (hdigits.drop _))

theorem noControl_scientific (d : Decimal) : NoControl d.scientific := by
  have hdigits := noControl_toDigits d.digits
  unfold Decimal.scientific
  dsimp only
  refine .append ?mantissa (.cons (by decide) ?exponent)
  case mantissa =>
    split
    · exact hdigits
    · exact (hdigits.take 1).append (.cons (by decide) (hdigits.drop 1))
  case exponent =>
    split
    · exact .cons (by decide) (noControl_toDigits _)
    · exact .cons (by decide) (noControl_toDigits _)

theorem noControl_numberChars (n : Number) : NoControl (numberChars n) := by
  cases n with
  | whole n =>
    rw [numberChars, Whole.chars]
    exact (noControl_signChars _).append (noControl_toDigits _)
  | double x =>
    rw [numberChars, FiniteDouble.jsonChars_eq, Decimal.jsonChars]
    refine (noControl_signChars x.negative).append ?_
    split
    · exact noControl_positional _
    · exact noControl_scientific _

/-! ## Strings -/

theorem le_toNat_hexDigit : ∀ n < 16, 0x20 ≤ (hexDigit n).toNat := by decide

theorem noControl_escapeChar (c : Char) : NoControl (escapeChar c) := by
  have hletter : ∀ letter : Char, 0x20 ≤ letter.toNat → NoControl ['\\', letter] :=
    fun letter h => .cons (by decide) (.cons h .nil)
  unfold escapeChar
  iterate 7
    split
    · exact hletter _ (by decide)
  split
  · have hhigh := le_toNat_hexDigit (c.toNat / 16) (by omega)
    have hlow := le_toNat_hexDigit (c.toNat % 16) (by omega)
    have hdigits : NoControl ['0', '0', hexDigit (c.toNat / 16), hexDigit (c.toNat % 16)] :=
      .cons (by decide) (.cons (by decide) (.cons hhigh (.cons hlow .nil)))
    exact .cons (by decide) (.cons (by decide) hdigits)
  · rename_i hcontrol
    exact .cons (Nat.not_lt.1 hcontrol) .nil

theorem noControl_stringChars (text : String) : NoControl (stringChars text) := by
  refine .cons (by decide) (.append ?_ (.cons (by decide) .nil))
  intro c hc
  obtain ⟨d, -, hd⟩ := List.mem_flatMap.1 hc
  exact noControl_escapeChar d c hd

/-! ## Values -/

theorem noControl_enclosed {α : Type} {text : α → List Char} {xs : List α}
    (h : ∀ x ∈ xs, NoControl (text x)) : NoControl (enclosed [','] text xs) := by
  cases xs with
  | nil => exact .nil
  | cons x xs =>
    rw [List.forall_mem_cons] at h
    refine h.1.append fun c hc => ?_
    obtain ⟨y, hy, hc⟩ := List.mem_flatMap.1 hc
    exact NoControl.cons (by decide) (h.2 y hy) c hc

/-- The compact text of a value has no control characters. -/
theorem noControl_chars (v : Json) : ∀ depth, NoControl (chars .compact depth v) := by
  induction v using induction with
  | null => exact fun _ => by simp [chars, NoControl]
  | bool b => cases b <;> exact fun _ => by simp [chars, NoControl]
  | number n =>
    intro depth
    rw [chars]
    exact noControl_numberChars n
  | string text =>
    intro depth
    rw [chars]
    exact noControl_stringChars text
  | array items ih =>
    intro depth
    have hchars := chars_compact_array depth items []
    rw [List.append_nil] at hchars
    rw [hchars]
    exact .cons (by decide) ((noControl_enclosed fun x hx => ih x hx _).append
      (.cons (by decide) .nil))
  | object members ih =>
    intro depth
    have hchars := chars_compact_object depth members []
    rw [List.append_nil] at hchars
    rw [hchars]
    refine .cons (by decide) ((noControl_enclosed fun m hm => ?_).append (.cons (by decide) .nil))
    exact (noControl_stringChars m.1).append (.cons (by decide) (ih m hm _))

end Json

end RecordQuery
