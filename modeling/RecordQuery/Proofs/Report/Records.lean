/-
RecordQuery.Proofs.Report.Records — tables of records are aligned and complete.

A table has a header line and a line for each record. Every line begins with a
text in eight characters; for each column a space and the text of the column
follow, filled with spaces up to the width of the column. The width is the same
in every line, so a column begins at the same place everywhere. It is large
enough for each text of the column, except that a text of more than 28
characters is cut to 25 of them and three dots. What is cut from a line in the
end is only blanks.

Nothing is escaped on the way. A line feed in a cell is written as it is, and
what follows it in the line stands on a line of its own.

Main definitions:
* `FirstSeen` — the keys of records, each where it occurs first;
* `shownText`, `rowChars`, `columnStart` — a line in full;
* `TableLine`, `IsTable` — a line and a table as they are printed.

Main statements:
* `firstSeen_keysSeen`, `exists_isGreatest_columnWidth`;
* `take_drop_rowChars` — where the cells of a line stand;
* `recordsTable_isTable` — every table of records;
* `recordsTable_breaks_line` — a cell of two lines.
-/
import Mathlib.Algebra.GroupWithZero.Nat
import Mathlib.Data.List.Forall2
import Mathlib.Order.Bounds.Defs
import RecordQuery.Proofs.Text.Columns
import RecordQuery.Report.Records

namespace RecordQuery

/-! ## Keys -/

/-- Each of the keys once, in the order in which they first occur. -/
structure FirstSeen (keys seen : List String) : Prop where
  mem_iff : ∀ key, key ∈ seen ↔ key ∈ keys
  ordered : seen.Pairwise fun key later => keys.idxOf key < keys.idxOf later

namespace FirstSeen

variable {keys seen : List String} {key : String}

theorem nodup (h : FirstSeen keys seen) : seen.Nodup :=
  h.ordered.imp fun hlt heq => by rw [heq] at hlt; exact Nat.lt_irrefl _ hlt

/-- What comes behind the keys does not change where they occur first. -/
theorem ordered_append (h : FirstSeen keys seen) (more : List String) :
    seen.Pairwise fun key later => (keys ++ more).idxOf key < (keys ++ more).idxOf later := by
  refine h.ordered.imp_of_mem fun {a b} ha hb hlt => ?_
  rw [List.idxOf_append_of_mem ((h.mem_iff a).1 ha), List.idxOf_append_of_mem ((h.mem_iff b).1 hb)]
  exact hlt

/-- One more key is put at the end, or left out if it has occurred. -/
theorem concat (h : FirstSeen keys seen) (key : String) :
    FirstSeen (keys ++ [key]) (if key ∈ seen then seen else seen ++ [key]) := by
  split
  case isTrue hseen =>
    refine ⟨fun other => ?_, h.ordered_append [key]⟩
    rw [h.mem_iff, List.mem_append, List.mem_singleton]
    constructor
    · exact .inl
    · rintro (hmem | rfl)
      · exact hmem
      · exact (h.mem_iff _).1 hseen
  case isFalse hnew =>
    have hfirst : key ∉ keys := fun hmem => hnew ((h.mem_iff key).2 hmem)
    refine ⟨fun other => by simp [h.mem_iff], ?_⟩
    rw [List.pairwise_append]
    refine ⟨h.ordered_append [key], List.pairwise_singleton _ _, fun a ha b hb => ?_⟩
    have hmem : a ∈ keys := (h.mem_iff a).1 ha
    rw [List.mem_singleton.1 hb, List.idxOf_append_of_mem hmem,
      List.idxOf_append_of_notMem hfirst]
    exact Nat.lt_add_right _ (List.idxOf_lt_length_of_mem hmem)

/-- The keys that a fold has collected from a list, whatever it had before. -/
theorem foldl (h : FirstSeen keys seen) (more : List String) :
    FirstSeen (keys ++ more)
      (more.foldl (fun seen key => if key ∈ seen then seen else seen ++ [key]) seen) := by
  induction more generalizing keys seen with
  | nil => rwa [List.append_nil]
  | cons key more ih =>
    have hnext := ih (h.concat key)
    rwa [List.append_assoc] at hnext

end FirstSeen

/-- Without catalog a table has every key of the records once. -/
theorem firstSeen_keysSeen (records : List Record) :
    FirstSeen (records.flatMap fun record => record.fields.keys) (keysSeen records) :=
  FirstSeen.foldl ⟨fun _ => Iff.rfl, List.Pairwise.nil⟩ _

/-! ## Widths -/

/-- What stands in a column: its heading and the cells of the records. -/
def Column.texts (column : Column) (records : List Record) : List (List Char) :=
  column.heading.toList :: records.map fun record => cellChars (column.cell record)

theorem Column.cellChars_mem_texts (column : Column) {records : List Record} {record : Record}
    (h : record ∈ records) : cellChars (column.cell record) ∈ column.texts records :=
  List.mem_cons_of_mem _ (List.mem_map_of_mem h)

/-- What a table shows of a text. -/
def shownText (text : List Char) : List Char :=
  if 28 < text.length then text.take 25 ++ ['.', '.', '.'] else text

theorem shownText_eq_self {text : List Char} (h : ¬ 28 < text.length) : shownText text = text :=
  if_neg h

theorem length_shownText_lt {text : List Char} (h : 28 < text.length) :
    (shownText text).length < text.length := by
  rw [shownText, if_pos h]
  simp only [List.length_append, List.length_take, List.length_cons, List.length_nil]
  omega

theorem isGreatest_foldl_max (first : Nat) (others : List Nat) :
    IsGreatest {n | n ∈ first :: others} (others.foldl max first) := by
  induction others generalizing first with
  | nil => exact ⟨List.mem_singleton_self _, fun n hn => (List.mem_singleton.1 hn).le⟩
  | cons second others ih =>
    obtain ⟨hmem, hle⟩ := ih (max first second)
    constructor
    · rcases List.mem_cons.1 hmem with hmax | hmem
      · rw [List.foldl_cons, hmax]
        rcases Nat.le_total first second with h | h
        · rw [Nat.max_eq_right h]
          exact List.mem_cons_of_mem _ List.mem_cons_self
        · rw [Nat.max_eq_left h]
          exact List.mem_cons_self
      · exact List.mem_cons_of_mem _ (List.mem_cons_of_mem _ hmem)
    · intro n hn
      have hfirst := hle List.mem_cons_self
      rcases List.mem_cons.1 hn with rfl | hn
      · exact (le_max_left _ _).trans hfirst
      · rcases List.mem_cons.1 hn with rfl | hn
        · exact (le_max_right _ _).trans hfirst
        · exact hle (List.mem_cons_of_mem _ hn)

section Column

variable {column : Column} {records : List Record} {text : List Char}

/-- A column is as wide as its longest text, but not wider than 28. -/
theorem exists_isGreatest_columnWidth (column : Column) (records : List Record) :
    ∃ longest, IsGreatest {n | ∃ text ∈ column.texts records, text.length = n} longest ∧
      columnWidth records column = min 28 longest := by
  refine ⟨_, ?_, rfl⟩
  have h := isGreatest_foldl_max column.heading.toList.length
    (records.map fun record => (cellChars (column.cell record)).length)
  convert h using 2
  simp [Column.texts, eq_comm]

/-- A text of a column is cut exactly if it has more than 28 characters. -/
theorem clip_columnWidth (h : text ∈ column.texts records) :
    clip (columnWidth records column) text = shownText text := by
  obtain ⟨longest, hgreatest, hwidth⟩ := exists_isGreatest_columnWidth column records
  have hle : text.length ≤ longest := hgreatest.2 ⟨text, h, rfl⟩
  unfold clip shownText
  rw [hwidth]
  by_cases hlong : 28 < text.length
  · rw [if_pos hlong, if_pos (by omega), show min 28 longest - 3 = 25 by omega]
  · rw [if_neg hlong, if_neg (by omega)]

/-- What is shown of a text fits into the column. -/
theorem length_shownText_le (h : text ∈ column.texts records) :
    (shownText text).length ≤ columnWidth records column := by
  obtain ⟨longest, hgreatest, hwidth⟩ := exists_isGreatest_columnWidth column records
  have hle : text.length ≤ longest := hgreatest.2 ⟨text, h, rfl⟩
  unfold shownText
  rw [hwidth]
  split
  · simp only [List.length_append, List.length_take, List.length_cons, List.length_nil]
    omega
  · omega

end Column

/-! ## Lines in full -/

/-- A cell in a line: a space, and a text that is filled up to the width of the column. -/
def paddedCell (cell : Nat × List Char) : List Char := ' ' :: padTo cell.1 cell.2

/-- A line before it is trimmed: a text in eight characters, and the cells. -/
def rowChars (first : List Char) (cells : List (Nat × List Char)) : List Char :=
  padTo 8 first ++ cells.flatMap paddedCell

/-- Where a column begins in a line. -/
def columnStart (widths : List Nat) (index : Nat) : Nat :=
  9 + ((widths.take index).map (· + 1)).sum

section Row

variable {width index : Nat} {first text : List Char} {cell : Nat × List Char}
  {cells : List (Nat × List Char)}

theorem length_flatMap_paddedCell (hfits : ∀ cell ∈ cells, cell.2.length ≤ cell.1) :
    (cells.flatMap paddedCell).length = ((cells.map (·.1)).map (· + 1)).sum := by
  rw [List.length_flatMap, List.map_map]
  congr 1
  refine List.map_congr_left fun cell hcell => ?_
  simp only [paddedCell, List.length_cons, length_padTo (hfits cell hcell), Function.comp_apply]

/-- The cell of a column stands where the column begins, in every line with the same widths. -/
theorem take_drop_rowChars (hfirst : first.length ≤ 8)
    (hfits : ∀ cell ∈ cells, cell.2.length ≤ cell.1) (h : cells[index]? = some cell) :
    ((rowChars first cells).drop (columnStart (cells.map (·.1)) index)).take cell.1 =
      padTo cell.1 cell.2 := by
  obtain ⟨hindex, rfl⟩ := List.getElem?_eq_some_iff.1 h
  have hcells : cells.flatMap paddedCell = (cells.take index).flatMap paddedCell ++
      (paddedCell cells[index] ++ (cells.drop (index + 1)).flatMap paddedCell) := by
    rw [← List.flatMap_cons, ← List.drop_eq_getElem_cons hindex, ← List.flatMap_append,
      List.take_append_drop]
  -- The line is what stands left of the cell, the cell, and what stands right of it.
  have hsplit : rowChars first cells =
      (padTo 8 first ++ (cells.take index).flatMap paddedCell ++ [' ']) ++
        (padTo cells[index].1 cells[index].2 ++ (cells.drop (index + 1)).flatMap paddedCell) := by
    rw [rowChars, hcells]
    simp [paddedCell]
  have hstart : (padTo 8 first ++ (cells.take index).flatMap paddedCell ++ [' ']).length =
      columnStart (cells.map (·.1)) index := by
    have hleft := length_flatMap_paddedCell fun cell hcell =>
      hfits cell (List.mem_of_mem_take (i := index) hcell)
    rw [List.length_append, List.length_append, length_padTo hfirst, hleft, columnStart,
      List.map_take, List.length_singleton]
    omega
  rw [hsplit, List.drop_left' hstart,
    List.take_left' (length_padTo (hfits _ (List.getElem_mem hindex)))]

end Row

/-! ## Lines as they are printed -/

/-- A printed line of a table: in full, but for blanks at its end, it shows the first text in eight
characters, and every other text in a cell that has the width of its column and stands where the
column begins. -/
structure TableLine (widths : List Nat) (first : List Char) (texts : List (List Char))
    (line : List Char) : Prop where
  exists_blanks : ∃ blanks, (∀ c ∈ blanks, isBlank c = true) ∧
    line ++ blanks = rowChars first (widths.zip texts)
  trimmed : ∀ c ∈ line.getLast?, isBlank c = false
  cell : ∀ index width text, widths[index]? = some width → texts[index]? = some text →
    (padTo width text).length = width ∧
      ((rowChars first (widths.zip texts)).drop (columnStart widths index)).take width =
        padTo width text

section Line

variable {records : List Record} {columns : List Column} {first : List Char}
  {text : Column → List Char}

/-- The cells of a line in which each column shows one of its texts. -/
def shownCells (records : List Record) (columns : List Column) (text : Column → List Char) :
    List (Nat × List Char) :=
  columns.map fun column => (columnWidth records column, shownText (text column))

theorem tableLine_trimEnd (hfirst : first.length ≤ 8)
    (htext : ∀ column ∈ columns, text column ∈ column.texts records) :
    TableLine (columns.map (columnWidth records)) first
      (columns.map fun column => shownText (text column))
      (trimEnd (rowChars first (shownCells records columns text))) := by
  have hcells : (columns.map (columnWidth records)).zip
      (columns.map fun column => shownText (text column)) = shownCells records columns text :=
    List.zip_map'
  have hwidths : (shownCells records columns text).map (·.1) =
      columns.map (columnWidth records) := by
    simp [shownCells]
  have hfits : ∀ cell ∈ shownCells records columns text, cell.2.length ≤ cell.1 := by
    intro cell hcell
    obtain ⟨column, hcolumn, rfl⟩ := List.mem_map.1 hcell
    exact length_shownText_le (htext column hcolumn)
  constructor
  case exists_blanks =>
    rw [hcells]
    exact exists_trimEnd_append _
  case trimmed => exact fun c => isBlank_of_mem_getLast?_trimEnd
  case cell =>
    intro index width shown hwidth hshown
    have hcell : (shownCells records columns text)[index]? = some (width, shown) := by
      rw [← hcells]
      exact List.getElem?_zip_eq_some.2 ⟨hwidth, hshown⟩
    have hsegment := take_drop_rowChars hfirst hfits hcell
    rw [hwidths] at hsegment
    rw [hcells]
    exact ⟨length_padTo (hfits _ (List.mem_of_getElem? hcell)), hsegment⟩

/-- The header line shows the headings. -/
theorem headerChars_eq (records : List Record) (columns : List Column) :
    headerChars (columns.map fun column => (column, columnWidth records column)) =
      rowChars "ID".toList
        (shownCells records columns fun column => column.heading.toList) := by
  unfold headerChars rowChars shownCells
  rw [List.flatMap_map, List.flatMap_map]
  congr 1
  refine List.flatMap_congr fun column _ => ?_
  rw [clip_columnWidth List.mem_cons_self]
  rfl

/-- Without colours a cell shows what fits of its text. -/
theorem columnCell_false {record : Record} (h : record ∈ records) (column : Column) :
    columnCell false (columnWidth records column) (column.cell record) =
      padTo (columnWidth records column) (shownText (cellChars (column.cell record))) := by
  have hplain (value : Option Json) : paintedCell false value = cellChars value := by
    unfold paintedCell
    split <;> rfl
  unfold columnCell padTo
  simp only [hplain, clip_columnWidth (column.cellChars_mem_texts h)]
  by_cases hlong : 28 < (cellChars (column.cell record)).length
  · rw [if_pos (length_shownText_lt hlong)]
  · rw [shownText_eq_self hlong, if_neg (Nat.lt_irrefl _)]

/-- The line of a record shows the start of its id and its cells. -/
theorem recordChars_false {record : Record} (h : record ∈ records) (columns : List Column) :
    recordChars false (columns.map fun column => (column, columnWidth records column)) record =
      rowChars (shortId record.id)
        (shownCells records columns fun column => cellChars (column.cell record)) := by
  unfold recordChars rowChars shownCells
  rw [List.flatMap_map, List.flatMap_map]
  congr 1
  refine List.flatMap_congr fun column _ => ?_
  rw [columnCell_false h]
  rfl

end Line

/-! ## Tables -/

section Lines

variable {lines : List (List Char)}

theorem flatMap_lines_eq_intercalate (lines : List (List Char)) :
    lines.flatMap (fun line => line ++ ['\n']) = ['\n'].intercalate (lines ++ [[]]) := by
  induction lines with
  | nil => rfl
  | cons line lines ih =>
    rw [List.flatMap_cons, ih, List.cons_append, List.intercalate_cons_of_ne_nil (by simp)]

theorem length_splitOn (c : Char) (text : List Char) :
    (text.splitOn c).length = text.count c + 1 := by
  induction text with
  | nil => simp
  | cons d text ih =>
    rw [List.splitOn_cons_eq_if_modifyHead, List.count_cons]
    split <;> simp [ih]

theorem count_flatMap_lines (lines : List (List Char)) :
    (lines.flatMap fun line => line ++ ['\n']).count '\n' =
      lines.length + (lines.map (List.count '\n')).sum := by
  induction lines with
  | nil => rfl
  | cons line lines ih =>
    rw [List.flatMap_cons, List.count_append, ih]
    simp only [List.count_append, List.count_singleton_self, List.length_cons, List.map_cons,
      List.sum_cons]
    omega

/-- Lines that are each followed by a line feed are the lines of the text exactly if none of them
has a line feed. -/
theorem splitOn_flatMap_lines_iff :
    (lines.flatMap fun line => line ++ ['\n']).splitOn '\n' = lines ++ [[]] ↔
      ∀ line ∈ lines, '\n' ∉ line := by
  constructor
  · intro hsplit line hline
    have hlength := congrArg List.length hsplit
    rw [length_splitOn, count_flatMap_lines, List.length_append, List.length_singleton] at hlength
    have hnone : (lines.map (List.count '\n')).sum = 0 := by omega
    exact List.count_eq_zero.1
      (List.sum_eq_zero_iff_forall_eq_nat.1 hnone _ (List.mem_map_of_mem hline))
  · intro hfree
    rw [flatMap_lines_eq_intercalate, List.splitOn_intercalate]
    · intro line hline
      rcases List.mem_append.1 hline with hline | hline
      · exact hfree line hline
      · rw [List.mem_singleton.1 hline]
        exact List.not_mem_nil
    · simp

end Lines

/-- A table of records as it is printed: its columns with their widths, and its lines. -/
structure IsTable (catalog : Catalog) (records : List Record) (table : String)
    (columns : List Column) (widths : List Nat) (header : List Char)
    (lines : List (List Char)) : Prop where
  /-- The table is the lines, each followed by a line feed. -/
  table_eq : table = String.ofList ((header :: lines).flatMap fun line => line ++ ['\n'])
  header_line : TableLine widths "ID".toList
    (columns.map fun column => shownText column.heading.toList) header
  /-- There is a line for each record, in their order. -/
  record_lines : List.Forall₂ (fun record line => TableLine widths (record.id.toList.take 8)
    (columns.map fun column => shownText (cellChars (column.cell record))) line) records lines
  /-- A column is as wide as its longest text, up to 28. -/
  widths_eq : List.Forall₂ (fun column width => ∃ longest,
    IsGreatest {n | ∃ text ∈ column.texts records, text.length = n} longest ∧
      width = min 28 longest) columns widths
  /-- The columns are the fields of the catalog under their labels. -/
  columns_of_catalog : catalog.fields ≠ [] →
    columns = catalog.fields.map fun field => ⟨field.name, field.heading⟩
  /-- Without catalog they are the keys of the records, each once. -/
  columns_of_keys : catalog.fields = [] → ∃ keys,
    FirstSeen (records.flatMap fun record => record.fields.keys) keys ∧ keys.Nodup ∧
      columns = keys.map fun key => ⟨key, key⟩
  /-- These are the lines of the text unless a line feed is printed within one of them. -/
  split_iff : table.toList.splitOn '\n' = header :: lines ++ [[]] ↔
    ∀ line ∈ header :: lines, '\n' ∉ line
  /-- Line feeds come from ids, headings and cells only. -/
  lineFeed_free : (∀ record ∈ records, '\n' ∉ record.id.toList) →
    (∀ column ∈ columns, ∀ text ∈ column.texts records, '\n' ∉ text) →
      ∀ line ∈ header :: lines, '\n' ∉ line

section Table

variable {catalog : Catalog} {records : List Record} {columns : List Column}
  {widths : List Nat} {first line : List Char} {texts : List (List Char)}

/-- What a line does not show cannot stand in it. -/
theorem TableLine.lineFeed_not_mem (hline : TableLine widths first texts line)
    (hfirst : '\n' ∉ first) (htexts : ∀ text ∈ texts, '\n' ∉ text) : '\n' ∉ line := by
  obtain ⟨blanks, -, hwhole⟩ := hline.exists_blanks
  intro hmem
  have hrow : '\n' ∈ rowChars first (widths.zip texts) := by
    rw [← hwhole]
    exact List.mem_append_left _ hmem
  rcases List.mem_append.1 hrow with hpad | hcells
  · exact not_mem_padTo (by decide) hfirst 8 hpad
  · obtain ⟨⟨width, text⟩, hcell, hpadded⟩ := List.mem_flatMap.1 hcells
    rcases List.mem_cons.1 hpadded with hspace | hpad
    · cases hspace
    · exact not_mem_padTo (by decide) (htexts text (List.of_mem_zip hcell).2) width hpad

/-- The columns of a table are the fields of the catalog under their labels, or the keys. -/
theorem columnsOf_of_ne_nil (h : catalog.fields ≠ []) (records : List Record) :
    columnsOf catalog records =
      catalog.fields.map fun field => ⟨field.name, field.heading⟩ := by
  unfold columnsOf
  rw [if_neg (by simpa using h)]

theorem columnsOf_of_eq_nil (h : catalog.fields = []) (records : List Record) :
    columnsOf catalog records = (keysSeen records).map fun key => ⟨key, key⟩ := by
  unfold columnsOf
  rw [if_pos (by simpa using h)]

/-- The header line as it is printed. -/
def printedHeader (records : List Record) (columns : List Column) : List Char :=
  trimEnd (rowChars "ID".toList (shownCells records columns fun column => column.heading.toList))

/-- The line of a record as it is printed. -/
def printedRecord (records : List Record) (columns : List Column) (record : Record) : List Char :=
  trimEnd (rowChars (record.id.toList.take 8)
    (shownCells records columns fun column => cellChars (column.cell record)))

theorem tableLine_printedHeader (records : List Record) (columns : List Column) :
    TableLine (columns.map (columnWidth records)) "ID".toList
      (columns.map fun column => shownText column.heading.toList)
      (printedHeader records columns) :=
  tableLine_trimEnd (by decide) fun _ _ => List.mem_cons_self

theorem tableLine_printedRecord (columns : List Column) {record : Record} (h : record ∈ records) :
    TableLine (columns.map (columnWidth records)) (record.id.toList.take 8)
      (columns.map fun column => shownText (cellChars (column.cell record)))
      (printedRecord records columns record) :=
  tableLine_trimEnd (List.length_take_le _ _) fun column _ => column.cellChars_mem_texts h

/-- The characters of a table, line by line. -/
theorem recordsTableChars_false (catalog : Catalog) (h : records ≠ []) :
    recordsTableChars false catalog records =
      (printedHeader records (columnsOf catalog records) ::
        records.map (printedRecord records (columnsOf catalog records))).flatMap
          fun line => line ++ ['\n'] := by
  unfold recordsTableChars
  rw [if_neg (by simpa using h), List.flatMap_cons, List.flatMap_map]
  simp only [headerChars_eq, paint, Bool.false_eq_true, if_false, List.append_assoc,
    List.singleton_append]
  rw [printedHeader]
  congr 2
  refine List.flatMap_congr fun record hrecord => ?_
  rw [tableLine, recordChars_false hrecord]
  rfl

/-- Where no id, heading or cell has a line feed, no line has one. -/
theorem lineFeed_not_mem_printed (hids : ∀ record ∈ records, '\n' ∉ record.id.toList)
    (htexts : ∀ column ∈ columns, ∀ text ∈ column.texts records, '\n' ∉ text)
    (hline : line ∈ printedHeader records columns :: records.map (printedRecord records columns)) :
    '\n' ∉ line := by
  rcases List.mem_cons.1 hline with rfl | hline
  · refine (tableLine_printedHeader records columns).lineFeed_not_mem (by decide)
      fun text htext => ?_
    obtain ⟨column, hcolumn, rfl⟩ := List.mem_map.1 htext
    exact not_mem_clip (by decide) (htexts column hcolumn _ List.mem_cons_self) 28
  · obtain ⟨record, hrecord, rfl⟩ := List.mem_map.1 hline
    refine (tableLine_printedRecord columns hrecord).lineFeed_not_mem
      (fun hmem => hids record hrecord (List.mem_of_mem_take hmem)) fun text htext => ?_
    obtain ⟨column, hcolumn, rfl⟩ := List.mem_map.1 htext
    exact not_mem_clip (by decide)
      (htexts column hcolumn _ (column.cellChars_mem_texts hrecord)) 28

/-- A table is aligned and complete: it has a header line and a line for each record, in which every
column stands at its place with its width, and its columns are those of the catalog or all keys. -/
theorem recordsTable_isTable (catalog : Catalog) {records : List Record} (h : records ≠ []) :
    ∃ columns widths header lines,
      IsTable catalog records (recordsTable false catalog records) columns widths header lines := by
  have hchars := recordsTableChars_false catalog h
  refine ⟨columnsOf catalog records, (columnsOf catalog records).map (columnWidth records),
    printedHeader records (columnsOf catalog records),
    records.map (printedRecord records (columnsOf catalog records)), ?_⟩
  constructor
  case table_eq => rw [recordsTable, hchars]
  case header_line => exact tableLine_printedHeader records _
  case record_lines =>
    rw [List.forall₂_map_right_iff, List.forall₂_same]
    exact fun record hrecord => tableLine_printedRecord _ hrecord
  case widths_eq =>
    rw [List.forall₂_map_right_iff, List.forall₂_same]
    exact fun column _ => exists_isGreatest_columnWidth column records
  case columns_of_catalog => exact fun hfields => columnsOf_of_ne_nil hfields records
  case columns_of_keys =>
    exact fun hfields => ⟨keysSeen records, firstSeen_keysSeen records,
      (firstSeen_keysSeen records).nodup, columnsOf_of_eq_nil hfields records⟩
  case split_iff =>
    rw [recordsTable, String.toList_ofList, hchars]
    exact splitOn_flatMap_lines_iff
  case lineFeed_free => exact fun hids htexts line hline => lineFeed_not_mem_printed hids htexts hline

/-- Two records, one of them without a value in the last column. -/
theorem recordsTable_isTable_players :
    let catalog : Catalog := ⟨[⟨"name", some "Name", .text, none⟩,
      ⟨"totalScore", some "Total Score", .number, none⟩]⟩
    let ann : Record := ⟨"abcdef0123456789", 0, Keyed.ofList [("name", .string "Ann"),
      ("totalScore", .number (.whole ⟨9500, by decide, by decide⟩))]⟩
    let bob : Record := ⟨"0123456789abcdef", 0, Keyed.ofList [("name", .string "Bob")]⟩
    recordsTable false catalog [ann, bob] =
        "ID       Name Total Score\nabcdef01 Ann  9500\n01234567 Bob\n" ∧
      [ann, bob] ≠ [] ∧
      ∃ columns widths header lines, IsTable catalog [ann, bob]
        (recordsTable false catalog [ann, bob]) columns widths header lines :=
  ⟨by decide +kernel, by decide, recordsTable_isTable _ (List.cons_ne_nil _ _)⟩

/-- A line feed in a cell is written as it is: the line of the record ends there, and the next
column stands at the beginning of the line that follows. -/
theorem recordsTable_breaks_line :
    let record : Record := ⟨"a", 0, Keyed.ofList [("x", .string "p\nq"), ("y", .string "z")]⟩
    recordsTable false .empty [record] = "ID       x   y\na        p\nq z\n" ∧
      ¬ ∃ header lines, lines.length = [record].length ∧
        (recordsTable false .empty [record]).toList.splitOn '\n' = header :: lines ++ [[]] := by
  intro record
  refine ⟨by decide +kernel, ?_⟩
  rintro ⟨header, lines, hcount, hsplit⟩
  have hlength := congrArg List.length hsplit
  rw [length_splitOn, List.length_append, List.length_cons, hcount] at hlength
  exact absurd hlength (by decide +kernel)

end Table

end RecordQuery
