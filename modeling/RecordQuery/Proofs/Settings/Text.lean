/-
RecordQuery.Proofs.Settings.Text — settings are read back from their text.

A document of settings is a line with the version and three sections of lines,
of which those are left out whose setting is not set. Whatever the settings are,
the text that is written for them is read as the same document: a path may hold
quotes, line ends and control characters, and a page size that can be written at
all is read as it is.

Main statements:
* `SettingsDocument.hasStatements_chars` — the statements in the text of a document;
* `SettingsDocument.ofEntries?_entries` — the document in the entries that they build;
* `SettingsDocument.parse?_of_encode` — what was written is read back.
-/
import RecordQuery.Proofs.Toml.Document
import RecordQuery.Settings.Text

namespace RecordQuery.SettingsDocument

open Toml (HasStatements IsPlainKey IsValueText Statement)

variable {document : SettingsDocument} {settings : Settings} {cs : List Char}
  {statements : List Statement} {α : Type}

/-! ## Statements -/

/-- An entry for a setting that is set. -/
def setting (name : String) (value : Option Toml) : Toml.Entries := value.toList.map (name, ·)

/-- The entry of the version. -/
def versionEntry (version : UInt32) : String × Toml := ("version", .integer version.toNat)

/-- The entries of the settings, by sections. -/
def groups (settings : Settings) : List (String × Toml.Entries) :=
  [("query", setting "strict" (settings.strict.map .boolean)
      ++ setting "page_size" (settings.pageSize.map fun size : Nat => .integer size)),
    ("output", setting "color" (settings.color.map .boolean)),
    ("data", setting "path" (settings.dataPath.map fun path => .text path.text))]

/-- The line of a setting is an assignment, or missing. -/
theorem hasStatements_line {name : String} (hname : IsPlainKey name.toList) {text : α → List Char}
    {toml : α → Toml} {value : Option α} (hvalue : ∀ a ∈ value, IsValueText (text a) (toml a))
    (h : HasStatements cs statements) :
    HasStatements (line name (value.map text) ++ cs)
      ((setting name (value.map toml)).map Statement.ofEntry ++ statements) := by
  cases value with
  | none => exact h
  | some a =>
    have hline := h.assign hname (hvalue a rfl)
    rw [String.ofList_toList] at hline
    simpa [line, setting, Statement.ofEntry] using hline

/-- The header of a section begins behind an empty line. -/
theorem hasStatements_header {name : String} (hname : IsPlainKey name.toList)
    (h : HasStatements cs statements) :
    HasStatements ('\n' :: '[' :: (name.toList ++ ']' :: '\n' :: cs))
      (.header [] name :: statements) := by
  have hheader := (h.header hname).newline
  rwa [String.ofList_toList] at hheader

theorem isValueText_switch (value : Option Bool) :
    ∀ a ∈ value, IsValueText (booleanChars a) (.boolean a) := fun a _ => Toml.isValueText_boolean a

/-- The text of a document has a statement for the version and those of the sections. -/
theorem hasStatements_chars (h : document.settings.pageSize.getD 0 ≤ integerLimit) :
    HasStatements document.chars
      ([versionEntry document.version].map Statement.ofEntry
        ++ (groups document.settings).flatMap Statement.ofSection) := by
  obtain ⟨version, strict, pageSize, color, dataPath⟩ := document
  have hsize : ∀ size ∈ pageSize, IsValueText (Nat.toDigits 10 size) (.integer size) := by
    rintro size rfl
    exact Toml.isValueText_natural h
  have hversion : ∀ n ∈ some version.toNat, IsValueText (Nat.toDigits 10 n) (.integer n) := by
    rintro n ⟨rfl⟩
    exact Toml.isValueText_natural (by have := version.toNat_lt; omega)
  have hpath : ∀ path ∈ dataPath, IsValueText (Toml.quoted path.text.toList) (.text path.text) :=
    fun path _ => Toml.isValueText_quoted path.text
  -- The lines from the last one up to the first.
  have hdata := hasStatements_line (by decide : IsPlainKey "path".toList) hpath .nil
  have hdata := hasStatements_header (by decide : IsPlainKey "data".toList) hdata
  have houtput := hasStatements_line (by decide : IsPlainKey "color".toList)
    (isValueText_switch color) hdata
  have houtput := hasStatements_header (by decide : IsPlainKey "output".toList) houtput
  have hquery := hasStatements_line (by decide : IsPlainKey "page_size".toList) hsize houtput
  have hquery := hasStatements_line (by decide : IsPlainKey "strict".toList)
    (isValueText_switch strict) hquery
  have hquery := hasStatements_header (by decide : IsPlainKey "query".toList) hquery
  have hall := hasStatements_line (by decide : IsPlainKey "version".toList) hversion hquery
  simpa [chars, versionEntry, groups, Statement.ofSection, setting] using hall

/-! ## Entries -/

/-- The entries of a document. -/
def entries (document : SettingsDocument) : Toml.Entries :=
  versionEntry document.version ::
    (groups document.settings).map fun group => (group.1, .table .header group.2)

theorem ofStatements?_groups (document : SettingsDocument) :
    Toml.Entries.ofStatements? ([versionEntry document.version].map Statement.ofEntry
        ++ (groups document.settings).flatMap Statement.ofSection) = some document.entries := by
  refine Toml.Entries.ofStatements?_sections ?_ ?_
  · simp [versionEntry, groups]
  · obtain ⟨version, strict, pageSize, color, dataPath⟩ := document
    simp only [groups, List.forall_mem_cons]
    refine ⟨?_, ?_, ?_, List.forall_mem_nil _⟩
    · cases strict <;> cases pageSize <;> simp [setting]
    · cases color <;> simp [setting]
    · cases dataPath <;> simp [setting]

theorem readVersion_entry (version : UInt32) :
    readVersion (some (.integer version.toNat)) = some version := by
  have hfits : version.toNat ≤ 4294967295 := by have := version.toNat_lt; omega
  simp only [readVersion]
  rw [if_pos ⟨by omega, by omega⟩]
  congr 1
  apply UInt32.toNat_inj.1
  rw [UInt32.ofInt, UInt32.toNat_ofNat']
  omega

theorem lookup_setting_self (name : String) (value : Option Toml) :
    (setting name value).lookup name = value := by
  cases value <;> simp [setting]

theorem lookup_setting_of_ne {name other : String} (h : name ≠ other) (value : Option Toml) :
    (setting other value).lookup name = none := by
  have hbeq : (name == other) = false := by simpa using h
  cases value <;> simp [setting, List.lookup_cons, hbeq]

theorem readBoolean_map (value : Option Bool) : readBoolean (value.map .boolean) = some value := by
  cases value <;> rfl

theorem readCount_map (value : Option Nat) :
    readCount (value.map fun size : Nat => .integer size) = some value := by
  cases value <;> simp [readCount]

theorem readPath_map (value : Option Path) :
    readPath (value.map fun path => .text path.text) = some value := by
  cases value <;> rfl

/-- The entries of a document are those of no other. -/
theorem ofEntries?_entries (document : SettingsDocument) :
    ofEntries? document.entries = some document := by
  obtain ⟨version, strict, pageSize, color, dataPath⟩ := document
  have hversion := readVersion_entry version
  simp only [ofEntries?, entries, versionEntry, groups, List.map_cons, List.map_nil,
    Toml.Entries.get?, List.lookup_cons, String.reduceBEq, hversion, sectionValues]
  simp only [List.lookup_append, lookup_setting_self,
    lookup_setting_of_ne (show "strict" ≠ "page_size" by decide),
    lookup_setting_of_ne (show "page_size" ≠ "strict" by decide), Option.or_none, Option.none_or]
  show (readBoolean _).bind (fun strict => (readCount _).bind fun pageSize =>
    (readBoolean _).bind fun color => (readPath _).bind fun path => _) = _
  rw [readBoolean_map, readCount_map, readBoolean_map, readPath_map]
  rfl

/-- What was written is read back. -/
theorem parse?_of_encode {text : String} (h : document.encode = .ok text) :
    parse? text = some document := by
  rw [encode] at h
  split at h
  · cases h
  rename_i hfits
  cases h
  have hstatements := hasStatements_chars (Nat.not_lt.1 hfits) (document.chars.length + 1)
    (Nat.lt_succ_self _)
  have hparse : Toml.parse? (String.ofList document.chars) = some document.entries := by
    obtain ⟨more, hmore⟩ : ∃ more, document.chars = 'v' :: more := by
      simp [chars, line]
    rw [Toml.parse?, String.toList_ofList]
    rw [hmore] at hstatements ⊢
    show (Toml.readStatements (('v' :: more).length + 1) ('v' :: more)).bind _ = _
    rw [hstatements]
    exact ofStatements?_groups document
  rw [parse?, hparse, Option.bind_some, ofEntries?_entries]

end RecordQuery.SettingsDocument
