/-
RecordQuery.Proofs.Report.Colors — colours do not change the text of a report.

With colours a report has escape sequences in front of styled texts and behind
them. Deleting every such sequence leaves the report without colours. For a
piece of a report this is stated with anything behind it (`Strips`), so that
pieces can be put together.

Lines of a table are trimmed after they have been put together, and a sequence
at the end of a line would keep the blanks in front of it. It never comes to
that, since only truth values are coloured and they end in no blank. The
invariant of a line (`SameLine`) therefore has three parts: the texts agree,
they agree after trimming, and both are blank or neither.

Main definitions:
* `withoutColors` — a text without its escape sequences;
* `Strips`, `SameLine` — a text with colours and the text without.

Main statements:
* `strips_paint`, `SameLine.append`, `sameLine_columnCell`;
* `withoutColors_reports` — tables of records, footers and explanations.
-/
import RecordQuery.Proofs.Json.Control
import RecordQuery.Proofs.Report.Records
import RecordQuery.Report.Explanation

namespace RecordQuery

/-! ## Deleting escape sequences -/

/-- The character stands between the bracket and the letter of an escape sequence. -/
def isCode (c : Char) : Bool := c.isDigit || c == ';'

/-- What stands behind an escape sequence, if the text begins with one. -/
def behindSequence? : List Char → Option (List Char)
  | '\x1b' :: '[' :: cs =>
    match cs.dropWhile isCode with
    | 'm' :: rest => some rest
    | _ => none
  | _ => none

theorem length_behindSequence?_lt {cs rest : List Char} (h : behindSequence? cs = some rest) :
    rest.length < cs.length := by
  unfold behindSequence? at h
  split at h
  case h_1 cs =>
    split at h
    case h_1 behind hdrop =>
      have hle := (List.dropWhile_sublist isCode (l := cs)).length_le
      rw [hdrop, Option.some.inj h, List.length_cons] at hle
      simp only [List.length_cons]
      omega
    case h_2 => cases h
  case h_2 => cases h

/-- A text without its escape sequences. -/
def withoutColors (cs : List Char) : List Char :=
  match h : behindSequence? cs with
  | some rest =>
    have := length_behindSequence?_lt h
    withoutColors rest
  | none =>
    match cs with
    | [] => []
    | c :: cs => c :: withoutColors cs
termination_by cs.length

section WithoutColors

variable {c : Char} {codes cs text : List Char}

@[simp] theorem withoutColors_nil : withoutColors [] = [] := by
  rw [withoutColors]
  rfl

theorem withoutColors_cons (hc : c ≠ '\x1b') (cs : List Char) :
    withoutColors (c :: cs) = c :: withoutColors cs := by
  have hnone : behindSequence? (c :: cs) = none := by
    unfold behindSequence?
    split
    case h_1 heq => exact absurd (List.cons.inj heq).1 hc
    case h_2 => rfl
  rw [withoutColors]
  split
  case h_1 heq => rw [hnone] at heq; cases heq
  case h_2 => rfl

/-- A sequence is deleted, whatever stands behind it. -/
theorem withoutColors_escapeSequence (hcodes : ∀ c ∈ codes, isCode c = true) (rest : List Char) :
    withoutColors (escapeSequence codes ++ rest) = withoutColors rest := by
  have hbehind : behindSequence? (escapeSequence codes ++ rest) = some rest := by
    unfold escapeSequence behindSequence?
    simp only [List.cons_append, List.append_assoc, List.nil_append]
    rw [List.dropWhile_append_of_pos hcodes]
    rfl
  rw [withoutColors]
  split
  case h_1 behind heq =>
    obtain rfl : rest = behind := Option.some.inj (hbehind.symm.trans heq)
    rfl
  case h_2 heq => rw [hbehind] at heq; cases heq

end WithoutColors

/-! ## Pieces of a report -/

/-- Without its sequences a text is the other one, also in front of more text. -/
def Strips (colored plain : List Char) : Prop :=
  ∀ rest, withoutColors (colored ++ rest) = plain ++ withoutColors rest

section Strips

variable {colored plain colored' plain' text : List Char} {α : Type} {f g : α → List Char}
  {xs : List α}

/-- Text without escape characters stays. -/
theorem strips_refl (h : '\x1b' ∉ text) : Strips text text := by
  induction text with
  | nil => exact fun _ => rfl
  | cons c text ih =>
    intro rest
    rw [List.mem_cons, not_or] at h
    rw [List.cons_append, withoutColors_cons (Ne.symm h.1), ih h.2 rest, List.cons_append]

theorem Strips.append (h : Strips colored plain) (h' : Strips colored' plain') :
    Strips (colored ++ colored') (plain ++ plain') := by
  intro rest
  rw [List.append_assoc, h, h', List.append_assoc]

theorem Strips.cons {c : Char} (hc : c ≠ '\x1b') (h : Strips colored plain) :
    Strips (c :: colored) (c :: plain) := by
  have hfirst : Strips [c] [c] := strips_refl (by simpa using hc.symm)
  exact hfirst.append h

theorem Strips.flatMap (h : ∀ x ∈ xs, Strips (f x) (g x)) : Strips (xs.flatMap f) (xs.flatMap g) := by
  induction xs with
  | nil => exact fun _ => rfl
  | cons x xs ih =>
    rw [List.forall_mem_cons] at h
    exact h.1.append (ih h.2)

theorem Strips.withoutColors_eq (h : Strips colored plain) : withoutColors colored = plain := by
  have hend := h []
  rwa [withoutColors_nil, List.append_nil, List.append_nil] at hend

theorem strips_escapeSequence {codes : List Char} (h : codes.all isCode = true) :
    Strips (escapeSequence codes) [] := withoutColors_escapeSequence (List.all_eq_true.1 h)

theorem strips_opening (style : Style) : Strips style.opening [] := by
  cases style with
  | title => exact (strips_escapeSequence rfl).append (strips_escapeSequence rfl)
  | success | failure | warning | faint => exact strips_escapeSequence rfl

theorem strips_closing (style : Style) : Strips style.closing [] := by
  cases style with
  | title => exact (strips_escapeSequence rfl).append (strips_escapeSequence rfl)
  | success | failure | warning | faint => exact strips_escapeSequence rfl

/-- A style is only sequences in front of a text and behind it. -/
theorem strips_paint (style : Style) (h : '\x1b' ∉ text) :
    Strips (paint true style text) (paint false style text) := by
  have hstyled := (strips_opening style).append ((strips_refl h).append (strips_closing style))
  rwa [List.nil_append, List.append_nil] at hstyled

end Strips

/-! ## Lines that are trimmed -/

/-- A line with colours and the line without, before they are trimmed. -/
structure SameLine (colored plain : List Char) : Prop where
  strips : Strips colored plain
  strips_trimEnd : Strips (trimEnd colored) (trimEnd plain)
  blank_iff : (∀ c ∈ colored, isBlank c = true) ↔ ∀ c ∈ plain, isBlank c = true

section SameLine

variable {colored plain colored' plain' text : List Char} {α : Type} {f g : α → List Char}
  {xs : List α}

theorem sameLine_refl (h : '\x1b' ∉ text) : SameLine text text where
  strips := strips_refl h
  strips_trimEnd := strips_refl fun hmem => h (mem_of_mem_trimEnd hmem)
  blank_iff := Iff.rfl

/-- What is cut from a line depends on which of its pieces are blank. -/
theorem SameLine.append (h : SameLine colored plain) (h' : SameLine colored' plain') :
    SameLine (colored ++ colored') (plain ++ plain') := by
  constructor
  case strips => exact h.strips.append h'.strips
  case strips_trimEnd =>
    by_cases hblank : ∀ c ∈ plain', isBlank c = true
    · rw [trimEnd_append_of_blank hblank, trimEnd_append_of_blank (h'.blank_iff.2 hblank)]
      exact h.strips_trimEnd
    · rw [trimEnd_append_of_not_blank hblank,
        trimEnd_append_of_not_blank (mt h'.blank_iff.1 hblank)]
      exact h.strips.append h'.strips_trimEnd
  case blank_iff => rw [List.forall_mem_append, List.forall_mem_append, h.blank_iff, h'.blank_iff]

theorem SameLine.flatMap (h : ∀ x ∈ xs, SameLine (f x) (g x)) :
    SameLine (xs.flatMap f) (xs.flatMap g) := by
  induction xs with
  | nil => exact sameLine_refl List.not_mem_nil
  | cons x xs ih =>
    rw [List.forall_mem_cons] at h
    exact h.1.append (ih h.2)

theorem SameLine.tableLine (h : SameLine colored plain) :
    Strips (tableLine colored) (tableLine plain) :=
  h.strips_trimEnd.append (strips_refl (by decide))

/-- The sequences behind a text end in a letter. -/
theorem trimEnd_closing (style : Style) (front : List Char) :
    trimEnd (front ++ style.closing) = front ++ style.closing := by
  have hletter : ¬ ∀ c ∈ style.closing, isBlank c = true := by
    intro hblank
    have hm : 'm' ∈ style.closing := by
      cases style <;> decide
    exact absurd (hblank 'm' hm) (by decide)
  have hlast : trimEnd style.closing = style.closing := by
    cases style <;> decide
  rw [trimEnd_append_of_not_blank hletter, hlast]

/-- A text that ends in no blank may be styled within a line. -/
theorem sameLine_paint (style : Style) (hfree : '\x1b' ∉ text) (hne : text ≠ [])
    (hlast : trimEnd text = text) : SameLine (paint true style text) text := by
  have hpainted : trimEnd (paint true style text) = paint true style text := by
    have h := trimEnd_closing style (style.opening ++ text)
    rwa [List.append_assoc] at h
  have hopened : paint true style text ≠ [] := by
    cases style <;> exact List.cons_ne_nil _ _
  constructor
  case strips => exact strips_paint style hfree
  case strips_trimEnd =>
    rw [hpainted, hlast]
    exact strips_paint style hfree
  case blank_iff =>
    rw [← trimEnd_eq_nil_iff, ← trimEnd_eq_nil_iff, hpainted, hlast]
    exact iff_of_false hopened hne

end SameLine

/-! ## Tables of records -/

/-- Nothing that a table shows of a record begins a sequence: its id, its keys and the strings in its
fields. Within lists and objects strings are escaped. -/
structure Record.EscapeFree (record : Record) : Prop where
  id : '\x1b' ∉ record.id.toList
  key : ∀ key ∈ record.fields.keys, '\x1b' ∉ key.toList
  string : ∀ key text, record.fields.get? key = some (.string text) → '\x1b' ∉ text.toList

/-- Nor do the headings of a catalog. -/
def Catalog.EscapeFree (catalog : Catalog) : Prop :=
  ∀ field ∈ catalog.fields, '\x1b' ∉ field.heading.toList

section Records

variable {text : List Char} {value : Option Json} {record : Record} {records : List Record}
  {catalog : Catalog}

/-- Only strings are written as they are. -/
theorem escape_not_mem_cellChars (h : ∀ text, value = some (.string text) → '\x1b' ∉ text.toList) :
    '\x1b' ∉ cellChars value := by
  unfold cellChars
  split
  case h_1 => exact List.not_mem_nil
  case h_2 => exact List.not_mem_nil
  case h_3 text => exact h text rfl
  case h_4 => exact (Json.noControl_chars _ 0).not_mem (by decide)

/-- Truth values are coloured, and other values are not. -/
theorem sameLine_paintedCell (h : '\x1b' ∉ cellChars value) :
    SameLine (paintedCell true value) (paintedCell false value) := by
  unfold paintedCell
  split
  · exact sameLine_paint .success (by decide) (by decide) (by decide)
  · exact sameLine_paint .failure (by decide) (by decide) (by decide)
  · exact sameLine_refl h

/-- A cell is as wide with colours as without. -/
theorem sameLine_columnCell (h : '\x1b' ∉ cellChars value) (width : Nat) :
    SameLine (columnCell true width value) (columnCell false width value) := by
  unfold columnCell
  refine SameLine.append ?_ (sameLine_refl (not_mem_filler (by decide) _ _))
  split
  · exact sameLine_refl (not_mem_clip (by decide) h width)
  · exact sameLine_paintedCell h

theorem sameLine_recordChars (h : record.EscapeFree) (columns : List (Column × Nat)) :
    SameLine (recordChars true columns record) (recordChars false columns record) := by
  unfold recordChars
  refine SameLine.append (sameLine_refl (not_mem_padTo (by decide) ?_ 8)) (SameLine.flatMap ?_)
  · exact fun hmem => h.id (List.mem_of_mem_take hmem)
  · intro column _
    have hcell : '\x1b' ∉ cellChars (column.1.cell record) :=
      escape_not_mem_cellChars fun text htext => h.string column.1.key text htext
    have hspace : SameLine [' '] [' '] := sameLine_refl (by decide)
    exact hspace.append (sameLine_columnCell hcell column.2)

theorem escape_not_mem_heading (hcatalog : catalog.EscapeFree)
    (hrecords : ∀ record ∈ records, record.EscapeFree) {column : Column}
    (h : column ∈ columnsOf catalog records) : '\x1b' ∉ column.heading.toList := by
  by_cases hfields : catalog.fields = []
  · rw [columnsOf_of_eq_nil hfields] at h
    obtain ⟨key, hkey, rfl⟩ := List.mem_map.1 h
    have hseen := ((firstSeen_keysSeen records).mem_iff key).1 hkey
    obtain ⟨record, hrecord, hmem⟩ := List.mem_flatMap.1 hseen
    exact (hrecords record hrecord).key key hmem
  · rw [columnsOf_of_ne_nil hfields] at h
    obtain ⟨field, hfield, rfl⟩ := List.mem_map.1 h
    exact hcatalog field hfield

theorem escape_not_mem_headerChars {columns : List (Column × Nat)}
    (h : ∀ column ∈ columns, '\x1b' ∉ column.1.heading.toList) : '\x1b' ∉ headerChars columns := by
  unfold headerChars
  rw [List.mem_append, not_or]
  refine ⟨not_mem_padTo (by decide) (by decide) 8, fun hmem => ?_⟩
  obtain ⟨column, hcolumn, hcell⟩ := List.mem_flatMap.1 hmem
  rcases List.mem_cons.1 hcell with hspace | hcell
  · cases hspace
  · exact not_mem_padTo (by decide) (not_mem_clip (by decide) (h column hcolumn) _) _ hcell

theorem strips_recordsTableChars (hcatalog : catalog.EscapeFree)
    (hrecords : ∀ record ∈ records, record.EscapeFree) :
    Strips (recordsTableChars true catalog records) (recordsTableChars false catalog records) := by
  unfold recordsTableChars
  split
  · exact strips_refl (by decide)
  · refine Strips.append (strips_paint .faint fun hmem => ?_) (Strips.cons (by decide) ?_)
    · refine escape_not_mem_headerChars (fun entry hentry => ?_) (mem_of_mem_trimEnd hmem)
      obtain ⟨column, hcolumn, rfl⟩ := List.mem_map.1 hentry
      exact escape_not_mem_heading hcatalog hrecords hcolumn
    · exact Strips.flatMap fun record hrecord =>
        (sameLine_recordChars (hrecords record hrecord) _).tableLine

end Records

/-! ## Footers and explanations -/

theorem escape_not_mem_toDigits (n : Nat) : '\x1b' ∉ Nat.toDigits 10 n :=
  (Json.noControl_toDigits n).not_mem (by decide)

theorem strips_pageFooterChars (shown : Nat) (isDone : Bool) {next : Option String}
    (h : ∀ cursor ∈ next, '\x1b' ∉ cursor.toList) :
    Strips (pageFooterChars true shown isDone next) (pageFooterChars false shown isDone next) := by
  have hcount : '\x1b' ∉ Nat.toDigits 10 shown ++ ' ' ::
      (if shown = 1 then "record".toList else "records".toList) := by
    rw [List.mem_append, not_or]
    refine ⟨escape_not_mem_toDigits shown, ?_⟩
    split <;> decide
  unfold pageFooterChars
  dsimp only
  split
  case h_1 cursor =>
    refine .cons (by decide) (.append (strips_refl hcount) (.cons (by decide)
      (.cons (by decide) (.append (strips_paint .faint ?_) (strips_refl (by decide))))))
    rw [List.mem_append, not_or]
    exact ⟨by decide, h cursor rfl⟩
  case h_2 => exact .cons (by decide) (.append (strips_refl hcount) (strips_refl (by decide)))

/-- None of the texts of an explanation begins a sequence. -/
structure Explanation.EscapeFree (explanation : Explanation) : Prop where
  expression : '\x1b' ∉ explanation.expression
  field : ∀ note ∈ explanation.rules, '\x1b' ∉ note.field.toList
  operator : ∀ note ∈ explanation.rules, '\x1b' ∉ note.operator.toList
  suggestion : ∀ note ∈ explanation.rules, ∀ name ∈ note.suggestion, '\x1b' ∉ name.toList
  strictError : ∀ message ∈ explanation.strictError, '\x1b' ∉ message.toList

section Explanation

variable {explanation : Explanation} {note : RuleNote} {field operator kind remarks : List Char}

theorem escape_not_mem_ruleColumns (hfield : '\x1b' ∉ field) (hoperator : '\x1b' ∉ operator)
    (hkind : '\x1b' ∉ kind) (hremarks : '\x1b' ∉ remarks) :
    '\x1b' ∉ ruleColumns field operator kind remarks := by
  simp only [ruleColumns, List.mem_append, List.mem_cons, not_or]
  exact ⟨not_mem_padTo (by decide) hfield _, by decide, not_mem_padTo (by decide) hoperator _, by decide,
    not_mem_padTo (by decide) hkind _, by decide, hremarks⟩

theorem escape_not_mem_remarks (h : ∀ name ∈ note.suggestion, '\x1b' ∉ name.toList) :
    ∀ remark ∈ note.remarks, '\x1b' ∉ remark := by
  intro remark hremark
  unfold RuleNote.remarks at hremark
  rcases List.mem_append.1 hremark with hcatalog | hoperator
  · split at hcatalog
    · cases hcatalog
    · split at hcatalog
      case h_1 name hname =>
        rw [List.mem_singleton.1 hcatalog, List.mem_append, List.mem_append, not_or, not_or]
        exact ⟨⟨by decide, h name hname⟩, by decide⟩
      case h_2 =>
        rw [List.mem_singleton.1 hcatalog]
        decide
  · split at hoperator
    · cases hoperator
    · rw [List.mem_singleton.1 hoperator]
      decide

theorem escape_not_mem_intercalate {separator : List Char} {texts : List (List Char)}
    (hseparator : '\x1b' ∉ separator) (h : ∀ text ∈ texts, '\x1b' ∉ text) :
    '\x1b' ∉ separator.intercalate texts := by
  induction texts with
  | nil => exact List.not_mem_nil
  | cons text texts ih =>
    rw [List.forall_mem_cons] at h
    cases texts with
    | nil => simpa using h.1
    | cons next texts =>
      rw [List.intercalate_cons_cons, List.mem_append, List.mem_append, not_or, not_or]
      exact ⟨⟨h.1, hseparator⟩, ih h.2⟩

theorem escape_not_mem_lineChars (h : explanation.EscapeFree) (hnote : note ∈ explanation.rules) :
    '\x1b' ∉ note.lineChars := by
  have hkind : '\x1b' ∉ note.kind.name.toList := by
    cases note.kind <;> decide
  have hremarks : '\x1b' ∉ [';', ' '].intercalate note.remarks :=
    escape_not_mem_intercalate (by decide) (escape_not_mem_remarks (h.suggestion note hnote))
  unfold RuleNote.lineChars
  rw [List.mem_append, not_or]
  exact ⟨fun hmem => escape_not_mem_ruleColumns (h.field note hnote) (h.operator note hnote) hkind
    hremarks (mem_of_mem_trimEnd hmem), by decide⟩

theorem strips_rulesChars (h : explanation.EscapeFree) :
    Strips (rulesChars true explanation.rules) (rulesChars false explanation.rules) := by
  unfold rulesChars
  split
  · exact strips_refl (by decide)
  · refine .cons (by decide) (.append (strips_paint .faint (by decide)) (.cons (by decide) ?_))
    exact Strips.flatMap fun note hnote => strips_refl (escape_not_mem_lineChars h hnote)

theorem strips_strictErrorChars (h : explanation.EscapeFree) :
    Strips (strictErrorChars true explanation.strictError)
      (strictErrorChars false explanation.strictError) := by
  unfold strictErrorChars
  split
  case h_1 => exact strips_refl (by decide)
  case h_2 message hmessage =>
    refine .cons (by decide) (.append (strips_paint .warning ?_) (strips_refl (by decide)))
    rw [List.mem_append, not_or]
    exact ⟨by decide, h.strictError message hmessage⟩

theorem strips_tableChars (h : explanation.EscapeFree) :
    Strips (explanation.tableChars true) (explanation.tableChars false) := by
  unfold Explanation.tableChars
  refine .append (strips_paint .title (by decide)) (.cons (by decide) (.cons (by decide)
    (.cons (by decide) (.append (strips_refl h.expression) (.cons (by decide) ?_)))))
  exact (strips_rulesChars h).append (strips_strictErrorChars h)

end Explanation

/-- Deleting the escape sequences from a coloured report leaves the report without colours: for
tables of records, for the lines under them, and for explanations. -/
theorem withoutColors_reports :
    (∀ (catalog : Catalog) (records : List Record), catalog.EscapeFree →
      (∀ record ∈ records, record.EscapeFree) →
        withoutColors (recordsTable true catalog records).toList =
          (recordsTable false catalog records).toList) ∧
    (∀ (shown : Nat) (isDone : Bool) (next : Option String),
      (∀ cursor ∈ next, '\x1b' ∉ cursor.toList) →
        withoutColors (pageFooter true shown isDone next).toList =
          (pageFooter false shown isDone next).toList) ∧
    ∀ explanation : Explanation, explanation.EscapeFree →
      withoutColors (explanation.table true).toList = (explanation.table false).toList := by
  refine ⟨fun catalog records hcatalog hrecords => ?_, fun shown isDone next hnext => ?_,
    fun explanation hexplanation => ?_⟩
  · rw [recordsTable, recordsTable, String.toList_ofList, String.toList_ofList]
    exact (strips_recordsTableChars hcatalog hrecords).withoutColors_eq
  · rw [pageFooter, pageFooter, String.toList_ofList, String.toList_ofList]
    exact (strips_pageFooterChars shown isDone hnext).withoutColors_eq
  · rw [Explanation.table, Explanation.table, String.toList_ofList, String.toList_ofList]
    exact (strips_tableChars hexplanation).withoutColors_eq

/-- A truth value in front of a column that is blank in this line, a cursor, and an explanation that
has a suggestion and a warning. -/
theorem withoutColors_reports_players :
    let ann : Record := ⟨"a", 0, Keyed.ofList [("active", .bool true), ("note", .null)]⟩
    let explanation : Explanation :=
      ⟨"(totalScor > 5 and name like 1)".toList, 2,
        [⟨"totalScor", ">", .text, false, true, some "totalScore"⟩,
          ⟨"name", "like", .text, true, false, none⟩],
        some "unknown operator: like"⟩
    recordsTable true .empty [ann] =
        "\x1b[2mID       active note\x1b[0m\na        \x1b[32mtrue\x1b[39m\n" ∧
      withoutColors (recordsTable true .empty [ann]).toList =
        (recordsTable false .empty [ann]).toList ∧
      withoutColors (pageFooter true 3 false (some "abc")).toList =
        (pageFooter false 3 false (some "abc")).toList ∧
      withoutColors (explanation.table true).toList = (explanation.table false).toList := by
  intro ann explanation
  have hann : ann.EscapeFree := by
    constructor
    case id => decide
    case key => decide
    case string =>
      intro key text h
      simp only [ann, Keyed.ofList, List.foldl_cons, List.foldl_nil, Keyed.get?_insert,
        Keyed.get?_empty] at h
      split at h
      · cases h
      · split at h <;> cases h
  have hexplanation : explanation.EscapeFree := by
    constructor <;> decide
  obtain ⟨htable, hfooter, hexplain⟩ := withoutColors_reports
  refine ⟨by decide +kernel, ?_, hfooter 3 false (some "abc") (by decide),
    hexplain explanation hexplanation⟩
  exact htable .empty [ann] (List.forall_mem_nil _) fun record hrecord => by
    rw [List.mem_singleton.1 hrecord]
    exact hann

end RecordQuery
