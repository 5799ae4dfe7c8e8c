/-
RecordQuery.Proofs.Toml.Document — a document that is written line by line.

A document with plain keys is a list of lines: a key with a value, the header of
a table, or nothing. Each line is read as one statement, or none, whatever
follows it, so a document is read by putting lines in front of one that is read
already. Statements that are grouped by headers, with keys of their own in every
group, build the tables that they name.

Main statements:
* `isValueText_boolean`, `isValueText_natural`, `isValueText_quoted` — texts of values;
* `HasStatements.header`, `HasStatements.assign` — one more line in front;
* `Entries.ofStatements?_sections` — what grouped statements build.
-/
import RecordQuery.Proofs.Double.Numeral
import RecordQuery.Proofs.Toml.Quoted
import RecordQuery.Toml.Document

namespace RecordQuery.Toml

open Json (DigitsEnd IsDigits IsWholePart)

variable {cs rest name digits : List Char} {c : Char} {statements : List Statement}

/-! ## Values -/

/-- In front of a line end the text is read as the value. It does not begin with a blank. -/
structure IsValueText (text : List Char) (value : Toml) : Prop where
  head : ∀ c ∈ text.head?, isBlank c = false
  read (rest : List Char) :
    readValue (levelLimit - 1) (text ++ '\n' :: rest) = some (value, '\n' :: rest)

/-- What begins with neither bracket is no list and no table. -/
theorem readValue_scalar (hlist : c ≠ '[') (htable : c ≠ '\x7b') (cs : List Char) :
    readValue (levelLimit - 1) (c :: cs) = readValue.readScalar (c :: cs) := by
  rw [show levelLimit - 1 = 78 + 1 from rfl]
  unfold readValue
  split <;> simp_all

theorem isValueText_boolean (value : Bool) :
    IsValueText (if value then "true" else "false").toList (.boolean value) := by
  cases value with
  | true => exact ⟨by simp [isBlank], fun rest => rfl⟩
  | false => exact ⟨by simp [isBlank], fun rest => rfl⟩

theorem isValueText_quoted (text : String) : IsValueText (quoted text.toList) (.text text) := by
  have hread (rest : List Char) := readText_quoted text.toList rest
  simp only [String.ofList_toList] at hread
  obtain ⟨mark, more, hmark, hquoted⟩ :
      ∃ mark more, (mark = '"' ∨ mark = '\'') ∧ quoted text.toList = mark :: more := by
    unfold quoted
    cases quotingOf text.toList <;> simp [Quoting.mark]
  rw [hquoted] at hread ⊢
  rcases hmark with rfl | rfl
  · refine ⟨by simp [isBlank], fun rest => ?_⟩
    rw [List.cons_append, readValue_scalar (by decide) (by decide)]
    rw [readValue.readScalar, ← List.cons_append, hread]
    rfl
  · refine ⟨by simp [isBlank], fun rest => ?_⟩
    rw [List.cons_append, readValue_scalar (by decide) (by decide)]
    rw [readValue.readScalar, ← List.cons_append, hread]
    rfl

/-! ### Whole numbers -/

/-- Behind digits of a line only digits and the line end stand. -/
theorem skipChar_digits (hdigits : IsDigits digits) (hc : c.isDigit = false) (hfeed : c ≠ '\n') :
    skipChar c (digits ++ '\n' :: rest) = none := by
  cases digits with
  | nil => simp [skipChar, Ne.symm hfeed]
  | cons d digits =>
    have hd := Json.ne_of_isDigit (hdigits d List.mem_cons_self) hc
    simp [skipChar, hd]

/-- A field that is read from digits of a line leaves digits of this line. -/
theorem readField_digits {length lower upper : Nat} {found : Nat × List Char}
    (hdigits : IsDigits digits)
    (h : readField length lower upper (digits ++ '\n' :: rest) = some found) :
    ∃ more, IsDigits more ∧ found.2 = more ++ '\n' :: rest := by
  unfold readField at h
  simp only [Option.ite_none_right_eq_some, Option.some.injEq] at h
  obtain ⟨⟨hlength, hall, -⟩, rfl⟩ := h
  -- A longer field would take the line end for a digit.
  have hfits : length ≤ digits.length := by
    by_contra hlong
    have hmem : '\n' ∈ (digits ++ '\n' :: rest).take length := by
      rw [List.take_append, List.mem_append]
      obtain ⟨extra, hextra⟩ : ∃ extra, length - digits.length = extra + 1 :=
        ⟨length - digits.length - 1, by omega⟩
      simp [hextra]
    have hfeed := List.all_eq_true.1 hall _ hmem
    simp at hfeed
  refine ⟨digits.drop length, fun c hc => hdigits c (List.mem_of_mem_drop hc), ?_⟩
  rw [List.drop_append_of_le_length hfits]

/-- Digits alone are no date and no time. -/
theorem readMoment_digits (hdigits : IsDigits digits) :
    readMoment (digits ++ '\n' :: rest) = none := by
  have hdate : skipDate (digits ++ '\n' :: rest) = none := by
    unfold skipDate
    cases hyear : readField 4 0 9999 (digits ++ '\n' :: rest) with
    | none => rfl
    | some found =>
      obtain ⟨more, hmore, hleft⟩ := readField_digits hdigits hyear
      simp [hleft, skipChar_digits hmore (show Char.isDigit '-' = false by decide) (by decide)]
  have htime : skipTime (digits ++ '\n' :: rest) = none := by
    unfold skipTime
    cases hhour : readField 2 0 23 (digits ++ '\n' :: rest) with
    | none => rfl
    | some found =>
      obtain ⟨more, hmore, hleft⟩ := readField_digits hdigits hhour
      simp [hleft, skipChar_digits hmore (show Char.isDigit ':' = false by decide) (by decide)]
  simp [readMoment, skipMoment, hdate, htime]

theorem moreDigits_digits (hdigits : IsDigits digits) :
    moreDigits Char.isDigit (digits ++ '\n' :: rest) = some (digits, '\n' :: rest) := by
  induction digits with
  | nil => simp [moreDigits]
  | cons d digits ih =>
    obtain ⟨hd, hdigits⟩ := List.forall_mem_cons.1 hdigits
    have hunderscore := Json.ne_of_isDigit hd (show Char.isDigit '_' = false by decide)
    rw [List.cons_append, moreDigits.eq_3 _ _ _ (by simp [hunderscore]), if_neg hunderscore,
      if_pos hd, ih hdigits]
    rfl

theorem readWhole_digits (hdigits : IsDigits digits) (hpart : IsWholePart digits) :
    readWhole (digits ++ '\n' :: rest) = some (digits, '\n' :: rest) := by
  rcases hpart with rfl | ⟨c, more, rfl, hc⟩
  · rfl
  · obtain ⟨hdigit, hmore⟩ := List.forall_mem_cons.1 hdigits
    rw [List.cons_append, readWhole.eq_2 _ (by simp [hc]), readDigits, if_pos hdigit,
      moreDigits_digits hmore]
    rfl

theorem readNumber_digits (hdigits : IsDigits digits) (hpart : IsWholePart digits) :
    readNumber (digits ++ '\n' :: rest) =
      (toInteger false (digitsValue digits)).map fun value => (value, '\n' :: rest) := by
  obtain ⟨c, more, rfl⟩ := List.exists_cons_of_ne_nil hpart.ne_nil
  obtain ⟨hdigit, hmore⟩ := List.forall_mem_cons.1 hdigits
  have hletter {letter : Char} (h : letter.isDigit = false) : c ≠ letter :=
    Json.ne_of_isDigit hdigit h
  have hsign := Numeral.readSign_digit hdigit (more ++ '\n' :: rest)
  have hdecimal : readDecimal false (c :: (more ++ '\n' :: rest)) =
      (toInteger false (digitsValue (c :: more))).map fun value => (value, '\n' :: rest) := by
    have hwhole : readWhole (c :: (more ++ '\n' :: rest)) = some (c :: more, '\n' :: rest) :=
      readWhole_digits hdigits hpart
    rw [readDecimal, hwhole]
    show (toInteger false (digitsValue (c :: more))).bind _ = _
    cases toInteger false (digitsValue (c :: more)) <;> rfl
  -- A letter that names a base stands behind a zero, which would be the whole number here.
  have hbase {letter : Char} (h : letter.isDigit = false) (hfeed : letter ≠ '\n') (cs : List Char) :
      c :: (more ++ '\n' :: rest) ≠ '0' :: letter :: cs := by
    intro heq
    have htail := (List.cons.inj heq).2
    cases more with
    | nil => exact hfeed (List.cons.inj htail).1.symm
    | cons d more =>
      exact Json.ne_of_isDigit (hmore d List.mem_cons_self) h (List.cons.inj htail).1
  rw [List.cons_append]
  unfold readNumber
  split
  · rename_i heq
    exact absurd heq (hbase (by decide) (by decide) _)
  · rename_i heq
    exact absurd heq (hbase (by decide) (by decide) _)
  · rename_i heq
    exact absurd heq (hbase (by decide) (by decide) _)
  · simp only [hsign]
    split
    · rename_i heq
      exact absurd (List.cons.inj heq).1 (hletter (by decide))
    · rename_i heq
      exact absurd (List.cons.inj heq).1 (hletter (by decide))
    · exact hdecimal

theorem isValueText_natural {n : Nat} (h : n ≤ 9223372036854775807) :
    IsValueText (Nat.toDigits 10 n) (.integer n) := by
  have hdigits := Json.isDigits_toDigits n
  have hpart := Json.isWholePart_toDigits n
  have hvalue : digitsValue (Nat.toDigits 10 n) = n := Nat.ofDigitChars_ten_toDigits
  have hfits : toInteger false n = some (.integer n) := by
    simp only [toInteger, Bool.false_eq_true, if_false]
    exact if_pos ⟨by omega, by omega⟩
  have hread (rest : List Char) :
      (readMoment (Nat.toDigits 10 n ++ '\n' :: rest)).or
        (readNumber (Nat.toDigits 10 n ++ '\n' :: rest)) = some (.integer n, '\n' :: rest) := by
    rw [readMoment_digits hdigits, readNumber_digits hdigits hpart, hvalue, hfits]
    rfl
  obtain ⟨c, more, heq⟩ := List.exists_cons_of_ne_nil hpart.ne_nil
  rw [heq] at hdigits hread ⊢
  have hletter {letter : Char} (h : letter.isDigit = false) : c ≠ letter :=
    Json.ne_of_isDigit (hdigits c List.mem_cons_self) h
  refine ⟨?_, fun rest => ?_⟩
  · simp [isBlank, hletter (show Char.isDigit ' ' = false by decide),
      hletter (show Char.isDigit '\t' = false by decide)]
  · rw [List.cons_append, readValue_scalar (hletter (by decide)) (hletter (by decide))]
    unfold readValue.readScalar
    split
    · rename_i heq
      exact absurd (List.cons.inj heq).1 (hletter (by decide))
    · rename_i heq
      exact absurd (List.cons.inj heq).1 (hletter (by decide))
    · rename_i heq
      exact absurd (List.cons.inj heq).1 (hletter (by decide))
    · rename_i heq
      exact absurd (List.cons.inj heq).1 (hletter (by decide))
    · exact hread rest

/-! ## Keys and lines -/

/-- A name that needs no quotes as a key. -/
structure IsPlainKey (name : List Char) : Prop where
  ne_nil : name ≠ []
  bare : ∀ c ∈ name, isBare c = true

instance (name : List Char) : Decidable (IsPlainKey name) :=
  decidable_of_iff (name ≠ [] ∧ name.all isBare = true)
    ⟨fun ⟨hne, hall⟩ => ⟨hne, List.all_eq_true.1 hall⟩,
      fun ⟨hne, hbare⟩ => ⟨hne, List.all_eq_true.2 hbare⟩⟩

theorem ne_of_isBare {d : Char} (hc : isBare c = true) (hd : isBare d = false) : c ≠ d := by
  rintro rfl
  simp [hd] at hc

theorem skipBlanks_plain (hname : IsPlainKey name) (rest : List Char) :
    skipBlanks (name ++ rest) = name ++ rest := by
  obtain ⟨d, more, rfl⟩ := List.exists_cons_of_ne_nil hname.ne_nil
  have hd := hname.bare d List.mem_cons_self
  have hspace := ne_of_isBare hd (show isBare ' ' = false by decide)
  have htab := ne_of_isBare hd (show isBare '\t' = false by decide)
  simp [skipBlanks, isBlank, hspace, htab]

theorem readSimpleKey_plain (hname : IsPlainKey name) (hc : isBare c = false) :
    readSimpleKey (name ++ c :: rest) = some (String.ofList name, c :: rest) := by
  have htake : (name ++ c :: rest).takeWhile isBare = name := by
    rw [List.takeWhile_append_of_pos hname.bare]
    simp [hc]
  have hdrop : (name ++ c :: rest).dropWhile isBare = c :: rest := by
    rw [List.dropWhile_append_of_pos hname.bare]
    simp [hc]
  obtain ⟨d, more, rfl⟩ := List.exists_cons_of_ne_nil hname.ne_nil
  have hd := hname.bare d List.mem_cons_self
  have hdouble := ne_of_isBare hd (show isBare '"' = false by decide)
  have hsingle := ne_of_isBare hd (show isBare '\'' = false by decide)
  rw [List.cons_append] at htake hdrop ⊢
  unfold readSimpleKey
  split
  · rename_i heq
    exact absurd (List.cons.inj heq).1 hdouble
  · rename_i heq
    exact absurd (List.cons.inj heq).1 hsingle
  · simp [htake, hdrop]

/-- A plain key is read up to the first character that cannot belong to it. -/
theorem readKey_plain (hname : IsPlainKey name) (budget : Nat) {rest : List Char}
    (hc : isBare c = false) (hdot : (skipBlanks (c :: rest)).head? ≠ some '.') :
    readKey (budget + 1) (name ++ c :: rest) =
      some (([], String.ofList name), skipBlanks (c :: rest)) := by
  have hkeys : readKeys (budget + 1) (name ++ c :: rest) =
      some ([String.ofList name], skipBlanks (c :: rest)) := by
    rw [readKeys, skipBlanks_plain hname, readSimpleKey_plain hname hc]
    simp only [Option.bind_eq_bind, Option.bind_some]
    split
    · rename_i heq
      simp [heq] at hdot
    · rfl
  rw [readKey, hkeys]
  rfl

theorem readHeader_plain (hname : IsPlainKey name) (cs : List Char) :
    readHeader (name ++ ']' :: '\n' :: cs) = some (.header [] (String.ofList name), cs) := by
  have hdot : (skipBlanks (']' :: '\n' :: cs)).head? ≠ some '.' := by simp [skipBlanks, isBlank]
  have hkey := readKey_plain hname (name ++ ']' :: '\n' :: cs).length (by decide) hdot
  obtain ⟨d, more, rfl⟩ := List.exists_cons_of_ne_nil hname.ne_nil
  have hd := ne_of_isBare (hname.bare d List.mem_cons_self) (show isBare '[' = false by decide)
  rw [List.cons_append] at hkey ⊢
  unfold readHeader
  split
  · rename_i heq
    exact absurd (List.cons.inj heq).1 hd
  · rw [hkey]
    rfl

theorem readAssignment_plain (hname : IsPlainKey name) {text : List Char} {value : Toml}
    (hvalue : IsValueText text value) (cs : List Char) :
    readAssignment (name ++ (" = ".toList ++ (text ++ '\n' :: cs))) =
      some (.assign [] (String.ofList name) value, cs) := by
  have hdot : (skipBlanks (' ' :: '=' :: ' ' :: (text ++ '\n' :: cs))).head? ≠ some '.' := by
    simp [skipBlanks, isBlank]
  have hkey := readKey_plain hname (name ++ (" = ".toList ++ (text ++ '\n' :: cs))).length
    (by decide) hdot
  have hskip : skipBlanks (' ' :: (text ++ '\n' :: cs)) = text ++ '\n' :: cs := by
    cases text with
    | nil => simp [skipBlanks, isBlank]
    | cons d text =>
      have hd := hvalue.head d rfl
      rw [skipBlanks, List.dropWhile_cons, if_pos (by decide), List.cons_append,
        List.dropWhile_cons, if_neg (by simp [hd])]
  show (readKey _ (name ++ ' ' :: '=' :: ' ' :: (text ++ '\n' :: cs))).bind _ = _
  rw [hkey]
  show (readValue (levelLimit - 1) (skipBlanks (' ' :: (text ++ '\n' :: cs)))).bind _ = _
  rw [hskip, hvalue.read]
  rfl

/-- The text has these statements: they are read from it with a budget for each of its characters. -/
def HasStatements (cs : List Char) (statements : List Statement) : Prop :=
  ∀ budget, cs.length < budget → readStatements budget cs = some statements

namespace HasStatements

theorem nil : HasStatements [] [] := by
  intro budget hbudget
  obtain ⟨budget, rfl⟩ : ∃ more, budget = more + 1 := ⟨budget - 1, by omega⟩
  rfl

theorem newline (h : HasStatements cs statements) : HasStatements ('\n' :: cs) statements := by
  intro budget hbudget
  obtain ⟨budget, rfl⟩ : ∃ more, budget = more + 1 := ⟨budget - 1, by omega⟩
  have hrest := h budget (by simp at hbudget; omega)
  rw [← hrest]
  rfl

theorem header (h : HasStatements cs statements) (hname : IsPlainKey name) :
    HasStatements ('[' :: (name ++ ']' :: '\n' :: cs))
      (.header [] (String.ofList name) :: statements) := by
  intro budget hbudget
  obtain ⟨budget, rfl⟩ : ∃ more, budget = more + 1 := ⟨budget - 1, by omega⟩
  have hrest := h budget (by simp at hbudget; omega)
  show (readHeader (name ++ ']' :: '\n' :: cs)).bind _ = _
  rw [readHeader_plain hname]
  show (readStatements budget cs).bind _ = _
  rw [hrest]
  rfl

theorem assign (h : HasStatements cs statements) (hname : IsPlainKey name) {text : List Char}
    {value : Toml} (hvalue : IsValueText text value) :
    HasStatements (name ++ (" = ".toList ++ (text ++ '\n' :: cs)))
      (.assign [] (String.ofList name) value :: statements) := by
  intro budget hbudget
  obtain ⟨budget, rfl⟩ : ∃ more, budget = more + 1 := ⟨budget - 1, by omega⟩
  have hrest := h budget (by simp at hbudget; omega)
  have hassign := readAssignment_plain hname hvalue cs
  have hskip := skipBlanks_plain hname (" = ".toList ++ (text ++ '\n' :: cs))
  obtain ⟨d, more, rfl⟩ := List.exists_cons_of_ne_nil hname.ne_nil
  have hd {other : Char} (hother : isBare other = false) : d ≠ other :=
    ne_of_isBare (hname.bare d List.mem_cons_self) hother
  rw [List.cons_append] at hassign hskip ⊢
  rw [readStatements, hskip]
  split
  · rename_i heq
    cases heq
  · rename_i heq
    exact absurd (List.cons.inj heq).1 (hd (by decide))
  · rename_i heq
    exact absurd (List.cons.inj heq).1 (hd (by decide))
  · rename_i heq
    exact absurd (List.cons.inj heq).1 (hd (by decide))
  · rename_i heq
    exact absurd (List.cons.inj heq).1 (hd (by decide))
  · rw [hassign]
    show (readStatements budget cs).bind _ = _
    rw [hrest]
    rfl

end HasStatements

/-! ## What statements build -/

variable {entries before inner : Entries} {key table : String} {value other : Toml}

namespace Entries

theorem get?_of_not_mem (h : key ∉ entries.map Prod.fst) : entries.get? key = none := by
  refine List.lookup_eq_none_iff.2 fun entry hentry => ?_
  have hne : entry.1 ≠ key := fun heq => h (heq ▸ List.mem_map_of_mem hentry)
  simpa using Ne.symm hne

theorem get?_concat (h : key ∉ before.map Prod.fst) :
    get? (before ++ [(key, value)]) key = some value := by
  have hnone : before.lookup key = none := get?_of_not_mem h
  simp [get?, List.lookup_append, hnone]

theorem replace_concat (h : key ∉ before.map Prod.fst) :
    replace (before ++ [(key, other)]) key value = before ++ [(key, value)] := by
  have hbefore : before.map (fun entry => if entry.1 = key then (key, value) else entry) =
      before := by
    refine (List.map_congr_left fun entry hentry => if_neg fun heq => ?_).trans (List.map_id before)
    exact h (heq ▸ List.mem_map_of_mem hentry)
  simp [replace, hbefore]

theorem add?_of_not_mem (h : key ∉ entries.map Prod.fst) :
    entries.add? key value = some (entries ++ [(key, value)]) := by
  rw [add?, get?_of_not_mem h]
  rfl

end Entries

/-- An entry as a statement. -/
def Statement.ofEntry (entry : String × Toml) : Statement := .assign [] entry.1 entry.2

/-- A header and the entries under it. -/
def Statement.ofSection (group : String × Entries) : List Statement :=
  .header [] group.1 :: group.2.map .ofEntry

theorem not_mem_of_nodup {names more : List String} (h : (names ++ key :: more).Nodup) :
    key ∉ names := fun hmem =>
  (List.nodup_append.1 h).2.2 key hmem key List.mem_cons_self rfl

/-- Entries in front of all headers are entries of the document. -/
theorem foldlM_extend_top (h : (before.map Prod.fst ++ entries.map Prod.fst).Nodup) :
    (entries.map Statement.ofEntry).foldlM Draft.extend ([], before) =
      some ([], before ++ entries) := by
  induction entries generalizing before with
  | nil => simp
  | cons entry entries ih =>
    obtain ⟨key, value⟩ := entry
    rw [List.map_cons, List.foldlM_cons]
    show ((before.add? key value).map fun entries => ([], entries)).bind _ = _
    rw [Entries.add?_of_not_mem (not_mem_of_nodup h)]
    have hrest := @ih (before ++ [(key, value)]) (by simpa using h)
    simpa using hrest

/-- Entries behind a header are entries of its table. -/
theorem foldlM_extend_table (htable : table ∉ before.map Prod.fst)
    (h : (inner.map Prod.fst ++ entries.map Prod.fst).Nodup) :
    (entries.map Statement.ofEntry).foldlM Draft.extend
        ([table], before ++ [(table, .table .header inner)]) =
      some ([table], before ++ [(table, .table .header (inner ++ entries))]) := by
  induction entries generalizing inner with
  | nil => simp
  | cons entry entries ih =>
    obtain ⟨key, value⟩ := entry
    have hassign : Entries.assign [table] [] key value (before ++ [(table, .table .header inner)]) =
        some (before ++ [(table, .table .header (inner ++ [(key, value)]))]) := by
      rw [Entries.assign, Entries.within, Entries.get?_concat htable]
      show ((inner.add? key value).bind fun inner => _) = _
      rw [Entries.add?_of_not_mem (not_mem_of_nodup h), Option.bind_some,
        Entries.replace_concat htable]
    rw [List.map_cons, List.foldlM_cons]
    show ((Entries.assign [table] [] key value _).map fun entries => ([table], entries)).bind _ = _
    rw [hassign]
    have hrest := @ih (inner ++ [(key, value)]) (by simpa using h)
    simpa using hrest

theorem foldlM_extend_sections {groups : List (String × Entries)} {path : List String}
    (h : (before.map Prod.fst ++ groups.map Prod.fst).Nodup)
    (hkeys : ∀ group ∈ groups, (group.2.map Prod.fst).Nodup) :
    ((groups.flatMap Statement.ofSection).foldlM Draft.extend (path, before)).map (·.2) =
      some (before ++ groups.map fun group => (group.1, .table .header group.2)) := by
  induction groups generalizing before path with
  | nil => simp
  | cons group groups ih =>
    obtain ⟨table, inner⟩ := group
    obtain ⟨hinner, hkeys⟩ := List.forall_mem_cons.1 hkeys
    have htable := not_mem_of_nodup h
    have hheader : Entries.addHeader [] table before =
        some (before ++ [(table, .table .header [])]) := by
      rw [Entries.addHeader, Entries.within, Entries.get?_of_not_mem htable]
    rw [List.flatMap_cons, List.foldlM_append, Statement.ofSection, List.foldlM_cons]
    show ((((Entries.addHeader [] table before).map
      fun entries => ([table], entries)).bind _).bind _).map _ = _
    rw [hheader]
    show (((inner.map Statement.ofEntry).foldlM Draft.extend
      ([table], before ++ [(table, .table .header [])])).bind _).map _ = _
    rw [foldlM_extend_table htable (by simpa using hinner), Option.bind_some,
      ih (by simpa using h) hkeys]
    simp

/-- Entries and then groups of entries with headers build the entries and a table for each group, if
no name comes twice. -/
theorem Entries.ofStatements?_sections {groups : List (String × Entries)}
    (h : (entries.map Prod.fst ++ groups.map Prod.fst).Nodup)
    (hkeys : ∀ group ∈ groups, (group.2.map Prod.fst).Nodup) :
    Entries.ofStatements? (entries.map Statement.ofEntry ++ groups.flatMap Statement.ofSection) =
      some (entries ++ groups.map fun group => (group.1, .table .header group.2)) := by
  have htop : (entries.map Statement.ofEntry).foldlM Draft.extend ([], []) =
      some ([], [] ++ entries) := foldlM_extend_top (by simpa using (List.nodup_append.1 h).1)
  rw [ofStatements?, List.foldlM_append, htop]
  exact foldlM_extend_sections h hkeys

end RecordQuery.Toml
