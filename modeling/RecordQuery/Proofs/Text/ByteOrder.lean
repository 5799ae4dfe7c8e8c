/-
RecordQuery.Proofs.Text.ByteOrder — texts are ordered as their UTF-8 bytes are.

Texts compare character by character, by code point. Stored and compared as
bytes they come out in the same order: of two characters the one with the
greater code point has the greater bytes, and it shows at a byte that both have,
so what follows the two does not matter.

Main statement:
* `utf8Bytes_lt_iff`.
-/
import Mathlib

namespace RecordQuery

/-- The UTF-8 bytes of a text. -/
def utf8Bytes (text : String) : List UInt8 := text.toUTF8.data.toList

theorem utf8Bytes_ofList (cs : List Char) :
    utf8Bytes (String.ofList cs) = cs.flatMap String.utf8EncodeChar := by
  rw [utf8Bytes, String.toUTF8_eq_toByteArray, String.toByteArray_ofList, List.utf8Encode,
    List.toList_data_toByteArray]

theorem length_utf8Bytes (text : String) : (utf8Bytes text).length = text.utf8ByteSize :=
  Array.length_toList

/-- Small numbers are ordered as bytes as they are. -/
theorem ofNat_lt_ofNat {m n : Nat} (hm : m < 256) (hn : n < 256) :
    UInt8.ofNat m < UInt8.ofNat n ↔ m < n := by
  rw [UInt8.lt_iff_toNat_lt, UInt8.toNat_ofNat', UInt8.toNat_ofNat', Nat.mod_eq_of_lt hm,
    Nat.mod_eq_of_lt hn]

/-- A number in base 64. Its first digit is written above a mark, the others above 0x80. -/
def markedDigits (mark : Nat) : Nat → Nat → List UInt8
  | 0, n => [UInt8.ofNat (n + mark)]
  | count + 1, n => markedDigits mark count (n / 64) ++ [UInt8.ofNat (n % 64 + 0x80)]

/-- The first digit, if so many others follow. -/
def firstDigit : Nat → Nat → Nat
  | 0, n => n
  | count + 1, n => firstDigit count (n / 64)

/-- Digits of equal count are ordered as the numbers are, whatever follows. -/
theorem markedDigits_append_lt {mark m n : Nat} (count : Nat) (h : m < n)
    (hfirst : firstDigit count n + mark < 256) (r r' : List UInt8) :
    markedDigits mark count m ++ r < markedDigits mark count n ++ r' := by
  induction count generalizing m n r r' with
  | zero =>
    rw [firstDigit] at hfirst
    exact List.Lex.rel ((ofNat_lt_ofNat (by omega) hfirst).2 (Nat.add_lt_add_right h mark))
  | succ count ih =>
    rw [markedDigits, markedDigits, List.append_assoc, List.append_assoc]
    -- either the digits before the last decide, or they are the same
    rcases Nat.lt_or_eq_of_le (Nat.div_le_div_right (c := 64) h.le) with hlt | heq
    · exact ih hlt hfirst _ _
    · rw [heq]
      exact List.append_left_lt
        (List.Lex.rel ((ofNat_lt_ofNat (by omega) (by omega)).2 (by omega)))

theorem exists_markedDigits (mark count n : Nat) :
    ∃ rest, markedDigits mark count n = UInt8.ofNat (firstDigit count n + mark) :: rest := by
  induction count generalizing n with
  | zero => exact ⟨[], rfl⟩
  | succ count ih =>
    obtain ⟨rest, hrest⟩ := ih (n / 64)
    exact ⟨rest ++ [UInt8.ofNat (n % 64 + 0x80)], by
      rw [markedDigits, hrest, firstDigit, List.cons_append]⟩

/-- The mark of a code point, and how many digits follow the first one. -/
def utf8Form (n : Nat) : Nat × Nat :=
  if n ≤ 0x7f then (0, 0) else if n ≤ 0x7ff then (0xc0, 1) else if n ≤ 0xffff then (0xe0, 2)
  else (0xf0, 3)

theorem utf8EncodeChar_eq (c : Char) :
    String.utf8EncodeChar c =
      markedDigits (utf8Form c.val.toNat).1 (utf8Form c.val.toNat).2 c.val.toNat := by
  have hc : c.val.toNat < 0x110000 := by
    rcases c.valid with h | h <;> omega
  simp only [String.utf8EncodeChar, utf8Form]
  generalize c.val.toNat = n at *
  split_ifs <;> simp only [markedDigits, Nat.div_div_eq_div_mul, List.cons_append,
    List.nil_append, Nat.add_zero, Nat.reduceMul]
  · rw [Nat.mod_eq_of_lt (b := 0x20) (by omega)]
  · rw [Nat.mod_eq_of_lt (b := 0x10) (by omega)]
  · rw [Nat.mod_eq_of_lt (b := 0x08) (by omega)]

theorem firstDigit_utf8Form_lt {n : Nat} (hn : n < 0x110000) :
    firstDigit (utf8Form n).2 n + (utf8Form n).1 < 256 := by
  unfold utf8Form
  split_ifs <;> simp only [firstDigit] <;> omega

/-- The first byte tells how many follow, and is greater where more do. -/
theorem firstDigit_lt_of_utf8Form_ne {m n : Nat} (h : m < n) (hne : utf8Form m ≠ utf8Form n) :
    firstDigit (utf8Form m).2 m + (utf8Form m).1 < firstDigit (utf8Form n).2 n + (utf8Form n).1 := by
  unfold utf8Form at hne ⊢
  split_ifs at hne ⊢ <;> simp only [firstDigit] <;> first | omega | exact absurd rfl hne

/-- The bytes of a character are less than those of a later one, whatever follows. -/
theorem utf8EncodeChar_append_lt {c d : Char} (h : c < d) (r r' : List UInt8) :
    String.utf8EncodeChar c ++ r < String.utf8EncodeChar d ++ r' := by
  have hlt : c.val.toNat < d.val.toNat := h
  have hd : d.val.toNat < 0x110000 := by
    rcases d.valid with h | h <;> omega
  have hbyte := firstDigit_utf8Form_lt hd
  rw [utf8EncodeChar_eq, utf8EncodeChar_eq]
  by_cases hform : utf8Form c.val.toNat = utf8Form d.val.toNat
  · rw [hform]
    exact markedDigits_append_lt _ hlt hbyte r r'
  · have hfirst := firstDigit_lt_of_utf8Form_ne hlt hform
    obtain ⟨rest, hrest⟩ := exists_markedDigits (utf8Form c.val.toNat).1
      (utf8Form c.val.toNat).2 c.val.toNat
    obtain ⟨rest', hrest'⟩ := exists_markedDigits (utf8Form d.val.toNat).1
      (utf8Form d.val.toNat).2 d.val.toNat
    rw [hrest, hrest']
    exact List.Lex.rel ((ofNat_lt_ofNat (hfirst.trans hbyte) hbyte).2 hfirst)

theorem utf8EncodeChar_ne_nil (c : Char) : String.utf8EncodeChar c ≠ [] := by
  simp only [String.utf8EncodeChar]
  split_ifs <;> exact List.cons_ne_nil _ _

theorem flatMap_utf8EncodeChar_lt {cs ds : List Char} (h : cs < ds) :
    cs.flatMap String.utf8EncodeChar < ds.flatMap String.utf8EncodeChar := by
  induction cs generalizing ds with
  | nil =>
    cases ds with
    | nil => exact absurd h (List.lt_irrefl [])
    | cons d ds =>
      rw [List.flatMap_nil, List.flatMap_cons]
      cases henc : String.utf8EncodeChar d with
      | nil => exact absurd henc (utf8EncodeChar_ne_nil d)
      | cons byte bytes => exact List.nil_lt_cons _ _
  | cons c cs ih =>
    cases ds with
    | nil => exact absurd h (List.not_lt_nil _)
    | cons d ds =>
      rw [List.flatMap_cons, List.flatMap_cons]
      rcases List.cons_lt_cons_iff.1 h with hcd | ⟨rfl, hrest⟩
      · exact utf8EncodeChar_append_lt hcd _ _
      · exact List.append_left_lt (ih hrest)

theorem utf8Bytes_lt_of_lt {s t : String} (h : s < t) : utf8Bytes s < utf8Bytes t := by
  rw [← String.ofList_toList (s := s), ← String.ofList_toList (s := t), utf8Bytes_ofList,
    utf8Bytes_ofList]
  exact flatMap_utf8EncodeChar_lt (String.lt_iff_toList_lt.1 h)

/-- Texts are ordered as their bytes are. -/
theorem utf8Bytes_lt_iff (s t : String) : utf8Bytes s < utf8Bytes t ↔ s < t := by
  refine ⟨fun h => ?_, utf8Bytes_lt_of_lt⟩
  rcases lt_trichotomy s t with hlt | rfl | hgt
  · exact hlt
  · exact absurd h (List.lt_irrefl _)
  · exact absurd (List.lt_trans h (utf8Bytes_lt_of_lt hgt)) (List.lt_irrefl _)

/-- One text is at most another if its bytes are. -/
theorem utf8Bytes_le_iff (s t : String) : utf8Bytes s ≤ utf8Bytes t ↔ s ≤ t :=
  (utf8Bytes_lt_iff t s).not.trans not_lt

end RecordQuery
