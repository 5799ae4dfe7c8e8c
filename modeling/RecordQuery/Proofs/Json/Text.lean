/-
RecordQuery.Proofs.Json.Text — strings are read as they were written.

The printer escapes a string character by character, and the reader consumes
the escape of one character at a time, so both meet at `readChars_escapeChar`:
whatever follows, the reader takes the escape of a character for this character.

Main statements:
* `readChars_escapeChar` — one character;
* `readText_stringChars` — a whole string between its quotes.
-/
import RecordQuery.Json.Printer
import RecordQuery.Json.Reader

namespace RecordQuery.Json

/-! ## Hexadecimal digits -/

theorem hexValue?_hexDigit : ∀ n < 16, hexValue? (hexDigit n) = some n := by decide

theorem readHex_control {n : Nat} (h : n < 0x20) (rest : List Char) :
    readHex ('0' :: '0' :: hexDigit (n / 16) :: hexDigit (n % 16) :: rest) = .ok n := by
  have hhigh := hexValue?_hexDigit (n / 16) (by omega)
  have hlow := hexValue?_hexDigit (n % 16) (by omega)
  have hzero : hexValue? '0' = some 0 := by decide
  simp [readHex, hhigh, hlow, hzero, Nat.div_add_mod']

/-- The four digits of a control character name it. -/
theorem readEscape_control {c : Char} (h : c.toNat < 0x20) (rest : List Char) :
    readEscape ('u' :: '0' :: '0' :: hexDigit (c.toNat / 16) :: hexDigit (c.toNat % 16) :: rest) =
      .ok (c, 5) := by
  have hlow : ¬ (0xdc00 ≤ c.toNat ∧ c.toNat ≤ 0xdfff) := by omega
  have hbasic : c.toNat < 0xd800 ∨ 0xdbff < c.toNat := by omega
  simp [readEscape, readCodePoint, readHex_control h, hlow, hbasic, bind, Except.bind, Except.map]

/-! ## Strings -/

/-- The reader takes the escape of a character for the character. -/
theorem readChars_escapeChar (c : Char) (rest : List Char) :
    readChars 0 (escapeChar c ++ rest) = readChars.prepend c (readChars 0 rest) := by
  by_cases hquote : c = '"'
  · subst hquote; simp [escapeChar, readChars, readEscape]
  by_cases hbackslash : c = '\\'
  · subst hbackslash; simp [escapeChar, readChars, readEscape]
  by_cases hb : c = '\x08'
  · subst hb; simp [escapeChar, readChars, readEscape]
  by_cases hf : c = '\x0c'
  · subst hf; simp [escapeChar, readChars, readEscape]
  by_cases hn : c = '\n'
  · subst hn; simp [escapeChar, readChars, readEscape]
  by_cases hr : c = '\r'
  · subst hr; simp [escapeChar, readChars, readEscape]
  by_cases ht : c = '\t'
  · subst ht; simp [escapeChar, readChars, readEscape]
  by_cases hcontrol : c.toNat < 0x20
  · simp [escapeChar, hquote, hbackslash, hb, hf, hn, hr, ht, hcontrol, readChars,
      readEscape_control]
  · simp [escapeChar, hquote, hbackslash, hb, hf, hn, hr, ht, hcontrol, readChars]

theorem readChars_flatMap_escapeChar (cs rest : List Char) :
    readChars 0 (cs.flatMap escapeChar ++ '"' :: rest) = .ok (cs, rest) := by
  induction cs with
  | nil => simp [readChars]
  | cons c cs ih =>
    rw [List.flatMap_cons, List.append_assoc, readChars_escapeChar, ih]
    rfl

/-- Behind its opening quote a written string is read back, and nothing of what follows. -/
theorem readText_stringChars (text : String) (rest : List Char) :
    readText (text.toList.flatMap escapeChar ++ '"' :: rest) = .ok (text, rest) := by
  simp [readText, readChars_flatMap_escapeChar, Except.map]

end RecordQuery.Json
