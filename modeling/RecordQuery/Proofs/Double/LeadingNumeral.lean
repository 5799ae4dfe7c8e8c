/-
RecordQuery.Proofs.Double.LeadingNumeral — the number that a text begins with.

Text is read as the longest numeral behind its blanks, rounded once. The reader
may go over bytes as well as over characters: all it looks for is ASCII, and a
byte of a longer character is not, so it stops at the same place and never
inside a character. What rounding has to do is taken from any reader of whole
texts that accepts the decimals of the grammar and rounds them correctly; as
there is one correct result, such a reader and this one agree.

Main statements:
* `leading?_bytesAsChars` — reading bytes is reading characters;
* `Spells.isAscii` — a numeral has as many bytes as characters;
* `Double.ofText_longest` — what a text is read as.
-/
import RecordQuery.Proofs.Double.Nearest
import RecordQuery.Proofs.Double.Spelling
import RecordQuery.Proofs.Text.ByteOrder

namespace RecordQuery

open Json (IsDigits)

/-! ## Bytes for characters -/

/-- All characters have a code below 128. -/
def IsAscii (cs : List Char) : Prop := ∀ c ∈ cs, c.toNat < 128

/-- The bytes of a text, each of them taken for the character with its code. -/
def bytesAsChars (cs : List Char) : List Char :=
  (utf8Bytes (String.ofList cs)).map fun byte => Char.ofNat byte.toNat

theorem bytesAsChars_cons (c : Char) (cs : List Char) :
    bytesAsChars (c :: cs) =
      ((String.utf8EncodeChar c).map fun byte => Char.ofNat byte.toNat) ++ bytesAsChars cs := by
  simp only [bytesAsChars, utf8Bytes_ofList, List.flatMap_cons, List.map_append]

theorem bytesAsChars_ascii {c : Char} (hc : c.toNat < 128) (cs : List Char) :
    bytesAsChars (c :: cs) = c :: bytesAsChars cs := by
  have hval : c.val.toNat < 128 := hc
  have hchar : Char.ofNat (UInt8.ofNat c.val.toNat).toNat = c := by
    rw [UInt8.toNat_ofNat', Nat.mod_eq_of_lt (by omega)]
    exact c.ofNat_toNat
  rw [bytesAsChars_cons, String.utf8EncodeChar, if_pos (by omega), List.map_singleton, hchar,
    List.singleton_append]

theorem toNat_byte (byte : UInt8) : (Char.ofNat byte.toNat).toNat = byte.toNat := by
  have := byte.toNat_lt
  rw [Char.toNat_ofNat, if_pos (.inl (by omega))]

/-- A longer character begins with a byte that is no ASCII character. -/
theorem bytesAsChars_long {c : Char} (hc : 128 ≤ c.toNat) (cs : List Char) :
    ∃ d more, bytesAsChars (c :: cs) = d :: more ∧ 128 ≤ d.toNat := by
  have hval : 128 ≤ c.val.toNat := hc
  have hfirst (n : Nat) (h : 128 ≤ n) (h' : n < 256) :
      128 ≤ (Char.ofNat (UInt8.ofNat n).toNat).toNat := by
    rw [toNat_byte, UInt8.toNat_ofNat', Nat.mod_eq_of_lt h']
    exact h
  rw [bytesAsChars_cons, String.utf8EncodeChar, if_neg (by omega)]
  split_ifs <;> exact ⟨_, _, rfl, hfirst _ (by omega) (by omega)⟩

/-- The first character of a text and what stands for it among the bytes: the same character, if it
is ASCII, and otherwise two that are not. -/
theorem bytesAsChars_cases (c : Char) (cs : List Char) :
    c.toNat < 128 ∧ bytesAsChars (c :: cs) = c :: bytesAsChars cs ∨
      128 ≤ c.toNat ∧ ∃ d more, bytesAsChars (c :: cs) = d :: more ∧ 128 ≤ d.toNat := by
  rcases Nat.lt_or_ge c.toNat 128 with hc | hc
  · exact .inl ⟨hc, bytesAsChars_ascii hc cs⟩
  · exact .inr ⟨hc, bytesAsChars_long hc cs⟩

theorem bytesAsChars_nil : bytesAsChars [] = [] := rfl

/-- ASCII characters are their own bytes. -/
theorem bytesAsChars_append {front : List Char} (h : IsAscii front) (cs : List Char) :
    bytesAsChars (front ++ cs) = front ++ bytesAsChars cs := by
  induction front with
  | nil => rfl
  | cons c front ih =>
    rw [List.cons_append, bytesAsChars_ascii (h c (List.mem_cons_self ..)),
      ih fun d hd => h d (List.mem_cons_of_mem _ hd), List.cons_append]

/-- A text can be cut behind ASCII characters: there are as many bytes before the cut. -/
theorem isValid_of_ascii {front : List Char} (h : IsAscii front) (cs : List Char) :
    String.Pos.Raw.IsValid (String.ofList (front ++ cs)) ⟨front.length⟩ := by
  have hbytes : bytesAsChars front = front := by
    simpa [bytesAsChars_nil] using bytesAsChars_append h []
  have hlength : (String.ofList front).utf8ByteSize = front.length := by
    rw [← length_utf8Bytes, ← congrArg List.length hbytes, bytesAsChars, List.length_map]
  refine String.Pos.Raw.isValid_iff_exists_append.2
    ⟨String.ofList front, String.ofList cs, String.ofList_append, ?_⟩
  rw [← hlength]
  rfl

theorem ne_of_long {c d : Char} (hc : 128 ≤ c.toNat) (hd : d.toNat < 128) : c ≠ d := by
  rintro rfl
  omega

theorem not_isDigit_of_long {c : Char} (hc : 128 ≤ c.toNat) : c.isDigit = false := by
  have hval : 128 ≤ c.val.toNat := hc
  rw [← Bool.not_eq_true, Char.isDigit]
  simp [UInt32.le_iff_toNat_le]
  omega

/-! ## Reading bytes -/

/-- ASCII characters begin the bytes of a text if they begin the text. -/
theorem isPrefixOf_bytesAsChars {word : List Char} (h : IsAscii word) (cs : List Char) :
    word.isPrefixOf (bytesAsChars cs) = word.isPrefixOf cs := by
  induction word generalizing cs with
  | nil => simp
  | cons w word ih =>
    have hw : w.toNat < 128 := h w (List.mem_cons_self ..)
    cases cs with
    | nil => rfl
    | cons c cs =>
      rcases bytesAsChars_cases c cs with ⟨-, heq⟩ | ⟨hc, d, more, heq, hd⟩
      · rw [heq, List.isPrefixOf_cons_cons, List.isPrefixOf_cons_cons,
          ih fun e he => h e (List.mem_cons_of_mem _ he)]
      · rw [heq, List.isPrefixOf_cons_cons, List.isPrefixOf_cons_cons,
          beq_false_of_ne (ne_of_long hc hw).symm, beq_false_of_ne (ne_of_long hd hw).symm,
          Bool.false_and, Bool.false_and]

namespace Numeral

variable {c : Char} {cs p power digits whole fraction mantissa sign : List Char}
  {negative : Bool} {numeral : Numeral}

/-- Digits are taken alike from the bytes and from the characters. -/
theorem digits_bytesAsChars (cs : List Char) :
    (bytesAsChars cs).takeWhile Char.isDigit = cs.takeWhile Char.isDigit ∧
      (bytesAsChars cs).dropWhile Char.isDigit = bytesAsChars (cs.dropWhile Char.isDigit) := by
  induction cs with
  | nil => exact ⟨rfl, rfl⟩
  | cons c cs ih =>
    rcases bytesAsChars_cases c cs with ⟨-, heq⟩ | ⟨hc, d, more, heq, hd⟩
    · rw [heq]
      cases hdigit : c.isDigit with
      | true => simp [hdigit, ih]
      | false => simp [hdigit, heq]
    · simp [heq, not_isDigit_of_long hc, not_isDigit_of_long hd]

/-- A part that begins with one of a few ASCII characters or is absent is read alike from the bytes
and from the characters, if what comes behind that character is. -/
theorem optional_bytesAsChars {α : Type} {absent : α} (read : List Char → α × List Char)
    (starts : List Char) (hstarts : IsAscii starts) (hnil : read [] = (absent, []))
    (hother : ∀ c ∉ starts, ∀ cs, read (c :: cs) = (absent, c :: cs))
    (hstart : ∀ c ∈ starts, ∀ cs, read (c :: bytesAsChars cs) =
      ((read (c :: cs)).1, bytesAsChars (read (c :: cs)).2)) (cs : List Char) :
    read (bytesAsChars cs) = ((read cs).1, bytesAsChars (read cs).2) := by
  cases cs with
  | nil => rw [bytesAsChars_nil, hnil, bytesAsChars_nil]
  | cons c cs =>
    rcases bytesAsChars_cases c cs with ⟨-, heq⟩ | ⟨hc, d, more, heq, hd⟩
    · by_cases hmem : c ∈ starts
      · rw [heq]
        exact hstart c hmem cs
      · rw [heq, hother c hmem, hother c hmem, heq]
    · have hlong {c : Char} (hc : 128 ≤ c.toNat) : c ∉ starts := fun hmem =>
        ne_of_long hc (hstarts c hmem) rfl
      rw [heq, hother c (hlong hc), hother d (hlong hd), heq]

theorem readSign_bytesAsChars (cs : List Char) :
    readSign (bytesAsChars cs) = ((readSign cs).1, bytesAsChars (readSign cs).2) := by
  refine optional_bytesAsChars readSign ['+', '-'] (by simp [IsAscii]) rfl ?_ ?_ cs
  · intro c hc cs
    obtain ⟨hplus, hminus⟩ : c ≠ '+' ∧ c ≠ '-' := by simpa using hc
    simp [readSign, hplus, hminus]
  · intro c hc cs
    fin_cases hc <;> rfl

theorem readFraction_bytesAsChars (cs : List Char) :
    readFraction (bytesAsChars cs) = ((readFraction cs).1, bytesAsChars (readFraction cs).2) := by
  refine optional_bytesAsChars readFraction ['.'] (by simp [IsAscii]) rfl ?_ ?_ cs
  · intro c hc cs
    have hpoint : c ≠ '.' := by simpa using hc
    simp [readFraction, hpoint]
  · intro c hc cs
    obtain rfl := List.mem_singleton.1 hc
    obtain ⟨htaken, hleft⟩ := digits_bytesAsChars cs
    rw [readFraction, readFraction, htaken, hleft]

theorem readPower_bytesAsChars (hc : c.toNat < 128) (cs : List Char) :
    readPower c (bytesAsChars cs) = ((readPower c cs).1, bytesAsChars (readPower c cs).2) := by
  obtain ⟨htaken, hleft⟩ := digits_bytesAsChars (readSign cs).2
  simp only [readPower, readSign_bytesAsChars, htaken, hleft]
  split
  · rw [bytesAsChars_ascii hc]
  · rfl

theorem readExponent_bytesAsChars (cs : List Char) :
    readExponent (bytesAsChars cs) = ((readExponent cs).1, bytesAsChars (readExponent cs).2) := by
  refine optional_bytesAsChars readExponent ['e', 'E'] (by simp [IsAscii]) rfl ?_ ?_ cs
  · intro c hc cs
    obtain ⟨hsmall, hlarge⟩ : c ≠ 'e' ∧ c ≠ 'E' := by simpa using hc
    simp [readExponent, hsmall, hlarge]
  · intro c hc cs
    fin_cases hc <;> exact readPower_bytesAsChars (by decide) cs

theorem isAscii_infinityWord : IsAscii infinityWord := by
  intro c hc
  fin_cases hc <;> decide

/-- The reader finds the same numeral among the bytes of a text, and leaves the bytes of what it
leaves of the text. -/
theorem leading?_bytesAsChars (cs : List Char) :
    leading? (bytesAsChars cs) =
      (leading? cs).map fun read => (read.1, bytesAsChars read.2) := by
  obtain ⟨htaken, hleft⟩ := digits_bytesAsChars (readSign cs).2
  simp only [leading?, readSign_bytesAsChars, isPrefixOf_bytesAsChars isAscii_infinityWord, htaken,
    hleft, readFraction_bytesAsChars, readExponent_bytesAsChars]
  split
  · rename_i hword
    obtain ⟨more, hmore⟩ := List.isPrefixOf_iff_prefix.1 hword
    rw [← hmore, bytesAsChars_append isAscii_infinityWord, List.drop_left, Option.map_some,
      List.drop_left]
  · split <;> rfl

/-! ## The characters of numerals -/

/-- The characters of a decimal beside its digits. -/
def marks : List Char := ['+', '-', '.', 'e', 'E']

theorem Sign.subset_marks (h : Sign sign negative) : sign ⊆ marks := by
  cases h <;> simp [marks]

theorem Power.isDigit_or_mem {exponent : Int} (h : Power power exponent) (hc : c ∈ power) :
    c.isDigit = true ∨ c ∈ marks := by
  cases h with
  | none => cases hc
  | @digits letter sign digits negative hletter hsign hdigits hne =>
    rw [List.mem_cons, List.mem_append] at hc
    rcases hc with rfl | hc | hc
    · rcases hletter with rfl | rfl <;> simp [marks]
    · exact .inr (hsign.subset_marks hc)
    · exact .inl (hdigits c hc)

theorem Mantissa.isDigit_or_mem (h : Mantissa mantissa whole fraction) (hc : c ∈ mantissa) :
    c.isDigit = true ∨ c ∈ marks := by
  cases h with
  | digits hwhole hne => exact .inl (hwhole c hc)
  | point hwhole hfraction hne =>
    rw [List.mem_append, List.mem_cons] at hc
    rcases hc with hc | rfl | hc
    · exact .inl (hwhole c hc)
    · simp [marks]
    · exact .inl (hfraction c hc)

/-- A decimal has digits and marks only. -/
theorem Spells.isDigit_or_mem {exponent : Int}
    (h : Spells p (.decimal negative whole fraction exponent)) (hc : c ∈ p) :
    c.isDigit = true ∨ c ∈ marks := by
  cases h with
  | decimal hsign hmantissa hpower =>
    rw [List.mem_append, List.mem_append] at hc
    rcases hc with hc | hc | hc
    · exact .inr (hsign.subset_marks hc)
    · exact hmantissa.isDigit_or_mem hc
    · exact hpower.isDigit_or_mem hc

theorem isAscii_marks : IsAscii marks := by
  intro c hc
  fin_cases hc <;> decide

theorem lt_of_isDigit (hc : c.isDigit = true) : c.toNat < 128 := by
  by_contra hlong
  rw [not_isDigit_of_long (Nat.le_of_not_lt hlong)] at hc
  cases hc

/-- A numeral has as many bytes as characters. -/
theorem Spells.isAscii (h : Spells p numeral) : IsAscii p := by
  intro c hc
  cases numeral with
  | infinity negative =>
    cases h with
    | infinity hsign =>
      rcases List.mem_append.1 hc with hc | hc
      · exact isAscii_marks c (hsign.subset_marks hc)
      · exact isAscii_infinityWord c hc
  | decimal negative whole fraction exponent =>
    exact (h.isDigit_or_mem hc).elim lt_of_isDigit (isAscii_marks c)

/-- A numeral that ends in the word is infinite, and its sign is the first character. -/
theorem Spells.eq_infinity (h : Spells p numeral) (hword : infinityWord <:+ p) :
    numeral = .infinity (p.head? = some '-') := by
  cases numeral with
  | infinity negative =>
    cases h with
    | infinity hsign => cases hsign <;> rfl
  | decimal negative whole fraction exponent =>
    have hmem : 'I' ∈ p := hword.subset (List.mem_cons_self ..)
    exact absurd (h.isDigit_or_mem hmem) (by decide)

/-- Any other numeral is a decimal. -/
theorem Spells.exists_decimal (h : Spells p numeral) (hword : ¬ infinityWord <:+ p) :
    ∃ negative whole fraction exponent, numeral = .decimal negative whole fraction exponent := by
  cases h with
  | infinity hsign => exact absurd (List.suffix_append _ _) hword
  | decimal hsign hmantissa hpower => exact ⟨_, _, _, _, rfl⟩

/-! ## What a text is read as -/

/-- The text is a numeral. -/
def IsNumeral (p : List Char) : Prop := ∃ numeral, Spells p numeral

/-- The longest numeral that a text begins with. -/
structure IsLongest (p cs : List Char) : Prop where
  numeral : IsNumeral p
  begins : p <+: cs
  longest : ∀ q, q <+: cs → IsNumeral q → q.length ≤ p.length

/-- A reader of whole texts accepts every decimal and rounds it correctly. -/
def ReadsDecimals (parse : String → Option Double) : Prop :=
  ∀ p negative whole fraction exponent, Spells p (.decimal negative whole fraction exponent) →
    ∃ x, parse (String.ofList p) = some x ∧
      Double.Rounds negative (decimalValue whole fraction exponent) x

/-- How many bytes the reader takes of a text, going over its bytes one by one. -/
def bytesTaken? (cs : List Char) : Option Nat :=
  (leading? (bytesAsChars cs)).map fun read => (bytesAsChars cs).length - read.2.length

/-- Behind so many bytes a text can be cut. -/
def IsCut (cs : List Char) (bytes : Nat) : Prop :=
  String.Pos.Raw.IsValid (String.ofList cs) ⟨bytes⟩

/-- How many bytes the sign of a text takes. -/
def signBytes (cs : List Char) : Nat :=
  (bytesAsChars cs).length - (readSign (bytesAsChars cs)).2.length

theorem isCut_signBytes (cs : List Char) : IsCut cs (signBytes cs) := by
  obtain ⟨sign, hcs, hsign⟩ := exists_sign cs
  have hascii : IsAscii sign := fun c hc => isAscii_marks c (hsign.subset_marks hc)
  have hbytes : bytesAsChars cs = sign ++ bytesAsChars (readSign cs).2 := by
    conv_lhs => rw [hcs]
    exact bytesAsChars_append hascii _
  have hlength : signBytes cs = sign.length := by
    rw [signBytes, readSign_bytesAsChars, hbytes, List.length_append, Nat.add_sub_cancel]
  rw [hlength, IsCut, hcs]
  exact isValid_of_ascii hascii _

end Numeral

open Numeral in
/-- A text is read as the longest numeral that it begins with, behind its blanks; as no number if
there is none. The reader stops behind the numeral also when it reads bytes, and cuts the text
between characters only. -/
theorem Double.ofText_longest {parse : String → Option Double} (hparse : ReadsDecimals parse)
    (text : String) :
    let cs := trimStart text.toList
    IsCut cs (signBytes cs) ∧
      ((∀ p, p <+: cs → ¬ IsNumeral p) ∧ bytesTaken? cs = none ∧ ofText text = .nan ∨
        ∃ p, IsLongest p cs ∧ bytesTaken? cs = some p.length ∧ IsCut cs p.length ∧
          if infinityWord <:+ p then ofText text = .infinity (p.head? = some '-')
          else parse (String.ofList p) = some (ofText text)) := by
  intro cs
  refine ⟨isCut_signBytes cs, ?_⟩
  cases hread : leading? cs with
  | none =>
    refine .inl ⟨fun p hp ⟨numeral, hspells⟩ =>
      (leading?_eq_none_iff cs).1 hread p numeral hp hspells, ?_, ?_⟩
    · rw [bytesTaken?, leading?_bytesAsChars, hread]
      rfl
    · rw [ofText, hread]
  | some read =>
    obtain ⟨numeral, rest⟩ := read
    obtain ⟨p, hp, hspells, hlongest⟩ := leading?_spec hread
    have hbytes : bytesAsChars cs = p ++ bytesAsChars rest := by
      rw [hp, bytesAsChars_append hspells.isAscii]
    have hvalue : ofText text = numeral.toDouble := by
      rw [ofText, hread]
    refine .inr ⟨p, ⟨⟨numeral, hspells⟩, ⟨rest, hp.symm⟩, fun q hq ⟨other, hother⟩ =>
      hlongest q other hq hother⟩, ?_, ?_, ?_⟩
    · rw [bytesTaken?, leading?_bytesAsChars, hread, Option.map_some, Option.map_some, hbytes,
        List.length_append, Nat.add_sub_cancel]
    · rw [IsCut, hp]
      exact isValid_of_ascii hspells.isAscii rest
    · split
      · rename_i hword
        rw [hvalue, hspells.eq_infinity hword, toDouble]
      · rename_i hword
        obtain ⟨negative, whole, fraction, exponent, rfl⟩ := hspells.exists_decimal hword
        obtain ⟨x, hx, hrounds⟩ := hparse p negative whole fraction exponent hspells
        rw [hx, hvalue, hrounds.unique (rounds_toDouble negative whole fraction exponent)]

/-- A reader of whole texts: the number of a text that is a numeral. -/
def Numeral.whole? (text : String) : Option Double :=
  match leading? text.toList with
  | some (numeral, []) => some numeral.toDouble
  | _ => none

theorem Numeral.readsDecimals_whole? : ReadsDecimals whole? := by
  intro p negative whole fraction exponent hspells
  refine ⟨_, ?_, rounds_toDouble negative whole fraction exponent⟩
  rw [whole?, String.toList_ofList, leading?_of_spells hspells]

open Numeral in
/-- Digits and a point are a numeral, but a letter and a sign without digits behind them are not
part of it, and what comes next has two bytes. -/
theorem Double.ofText_longest_givenUp :
    ReadsDecimals whole? ∧
      IsLongest "-12.".toList (trimStart " \t-12.e+é".toList) ∧
      bytesTaken? (trimStart " \t-12.e+é".toList) = some 4 ∧
      whole? "-12." = some (ofText " \t-12.e+é") := by
  obtain ⟨-, hread⟩ := ofText_longest readsDecimals_whole? " \t-12.e+é"
  have hbytes : bytesTaken? (trimStart " \t-12.e+é".toList) = some 4 := by cbv
  rcases hread with ⟨-, hnone, -⟩ | ⟨p, hlongest, htaken, -, hvalue⟩
  · rw [hbytes] at hnone
    cases hnone
  · have hlength : p.length = 4 := Option.some.inj (htaken.symm.trans hbytes)
    obtain rfl : p = "-12.".toList := by
      rw [List.prefix_iff_eq_take.1 hlongest.begins, hlength]
      cbv
    rw [if_neg (by decide), String.ofList_toList] at hvalue
    exact ⟨readsDecimals_whole?, hlongest, hbytes, hvalue⟩

end RecordQuery
