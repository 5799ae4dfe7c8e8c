/-
RecordQuery.Proofs.Sample.Dates — the dates of sample data as texts.

The records of a table are dated backwards, a fixed number of days apart, so the
days never go forward along a table. Rules compare dates as texts, and texts of
days are in the order of the days as long as the years are written in four
digits: then every part has its width, and digits of one width are in the order
of their numbers. A year before the year 0 has a sign in front, which puts it
before all others, as it should be; but the digits behind the sign grow as the
years go back. So two days of different years before the year 0 are in the
order of these digits, whichever comes first.

Main definitions:
* `Date.InTextOrder` — when the text of a day that is no later comes no later;
* `Sample.dateOf` — the day of a record.

Main statements:
* `Date.padded_lt_padded_iff` — digits of one width;
* `Date.text_le_text_iff` — texts of two days;
* `Sample.hasDates_sampleDataset` — what stands in the records;
* `Sample.dates_inTextOrder_iff` — two records of a table, and a rule that compares them.
-/
import RecordQuery.Proofs.Json.Double
import RecordQuery.Proofs.Operators
import RecordQuery.Proofs.Sample
import RecordQuery.Proofs.Sample.Calendar

namespace RecordQuery

open Json (IsDigits isDigits_toDigits)

namespace Date

variable {width m n : Nat} {digits others rest rest' : List Char} {date first second : Date}

/-! ## Digits of one width -/

theorem isDigits_padded (width n : Nat) : IsDigits (padded width n) :=
  IsDigits.append (fun c hc => by rw [List.eq_of_mem_replicate hc]; decide) (isDigits_toDigits n)

theorem ofDigitChars_padded (width n : Nat) : Nat.ofDigitChars 10 (padded width n) 0 = n := by
  unfold padded
  rw [Nat.ofDigitChars_append, Nat.ofDigitChars_replicate_zero, Nat.mul_zero]
  exact Nat.ofDigitChars_ten_toDigits

theorem length_padded (hwidth : 0 < width) (h : n < 10 ^ width) :
    (padded width n).length = width := by
  have hle := (Nat.length_toDigits_le_iff (by decide) hwidth).2 h
  simp only [padded, List.length_append, List.length_replicate]
  omega

theorem padded_inj (h : padded width m = padded width n) : m = n := by
  rw [← ofDigitChars_padded width m, h, ofDigitChars_padded]

/-- Numbers that are written in one width are in the order of their digits. -/
theorem padded_lt_padded_iff (hm : (padded width m).length = width)
    (hn : (padded width n).length = width) : padded width m < padded width n ↔ m < n := by
  have hvalue {k l : Nat} (hk : (padded width k).length = width)
      (hl : (padded width l).length = width) (h : padded width k < padded width l) : k < l := by
    have hlt := Json.ofDigitChars_lt_of_lt (isDigits_padded width k) (hk.trans hl.symm) h 0
    rwa [ofDigitChars_padded, ofDigitChars_padded] at hlt
  refine ⟨hvalue hm hn, fun h => ?_⟩
  rcases lt_trichotomy (padded width m) (padded width n) with hlt | heq | hgt
  · exact hlt
  · exact absurd (padded_inj heq) (Nat.ne_of_lt h)
  · exact absurd (hvalue hn hm hgt) (Nat.lt_asymm h)

/-! ## Texts of days -/

theorem dash_lt_digit {c : Char} (hc : c.isDigit = true) : '-' < c := by
  simp only [Char.isDigit, Bool.and_eq_true, decide_eq_true_eq] at hc
  have hlow : 48 ≤ c.toNat := hc.1
  show 45 < c.toNat
  omega

/-- A dash behind digits comes before any further digit. -/
theorem append_dash_lt (hothers : IsDigits others) (h : digits < others) (rest rest' : List Char) :
    digits ++ '-' :: rest < others ++ '-' :: rest' := by
  induction digits generalizing others with
  | nil =>
    cases others with
    | nil => exact absurd h (List.lt_irrefl [])
    | cons d others =>
      exact List.cons_lt_cons_iff.2 (.inl (dash_lt_digit (hothers d (List.mem_cons_self ..))))
  | cons c digits ih =>
    cases others with
    | nil => exact absurd h (List.not_lt_nil _)
    | cons d others =>
      rcases List.cons_lt_cons_iff.1 h with hcd | ⟨rfl, htail⟩
      · exact List.cons_lt_cons_iff.2 (.inl hcd)
      · exact List.cons_lt_cons_iff.2
          (.inr ⟨rfl, ih (fun e he => hothers e (List.mem_cons_of_mem _ he)) htail⟩)

/-- Month and day as they are written. -/
def monthDayChars (date : Date) : List Char := padded 2 date.month ++ '-' :: padded 2 date.day

theorem toList_text (date : Date) :
    date.text.toList = yearChars date.year ++ '-' :: date.monthDayChars := by
  rw [text, String.toList_ofList]
  rfl

theorem IsDay.lengths (h : date.IsDay) :
    (padded 2 date.month).length = 2 ∧ (padded 2 date.day).length = 2 := by
  obtain ⟨length, hlength, hle⟩ := h.day_le
  have hmonth : date.month - 1 < (monthLengths date.year).length :=
    (List.getElem?_eq_some_iff.1 hlength).1
  have hday : length ≤ 31 := by
    have hmem : length ∈ monthLengths date.year := List.mem_of_getElem? hlength
    simp only [monthLengths, List.mem_cons, List.not_mem_nil, or_false] at hmem
    split at hmem <;> omega
  have htwelve : (monthLengths date.year).length = 12 := rfl
  exact ⟨length_padded (by decide) (by omega), length_padded (by decide) (by omega)⟩

/-- Days of one year are in the order of their texts. -/
theorem text_lt_of_sameYear (hfirst : first.IsDay) (hsecond : second.IsDay)
    (hyear : first.year = second.year) (h : first.Precedes second) : first.text < second.text := by
  obtain ⟨hmonth, hday⟩ := hfirst.lengths
  obtain ⟨hmonth', hday'⟩ := hsecond.lengths
  rw [String.lt_iff_toList_lt, toList_text, toList_text, hyear]
  refine List.append_left_lt (List.cons_lt_cons_iff.2 (.inr ⟨rfl, ?_⟩))
  unfold monthDayChars
  rcases h with hlt | ⟨-, hlt | ⟨heq, hlt⟩⟩
  · omega
  · exact append_dash_lt (isDigits_padded _ _) ((padded_lt_padded_iff hmonth hmonth').2 hlt) _ _
  · rw [heq]
    exact List.append_left_lt (List.cons_lt_cons_iff.2
      (.inr ⟨rfl, (padded_lt_padded_iff hday hday').2 hlt⟩))

theorem yearChars_of_nonneg (h : 0 ≤ date.year) (hlast : date.year ≤ 9999) :
    yearChars date.year = padded 4 date.year.toNat := if_pos ⟨h, hlast⟩

theorem yearChars_of_neg (h : date.year < 0) :
    yearChars date.year = '-' :: padded 4 date.year.natAbs := by
  unfold yearChars
  rw [if_neg (by omega), if_pos h]

theorem length_padded_year (h : 0 ≤ date.year) (hlast : date.year ≤ 9999) :
    (padded 4 date.year.toNat).length = 4 :=
  length_padded (by decide) (by omega)

/-- From the year 0 on the texts of days are in the order of their years, and those of the days
before come first. -/
theorem text_lt_of_nonneg (hsecond : 0 ≤ second.year) (hlast : second.year ≤ 9999)
    (h : first.year < second.year) : first.text < second.text := by
  rw [String.lt_iff_toList_lt, toList_text, toList_text, yearChars_of_nonneg hsecond hlast]
  by_cases hneg : first.year < 0
  · rw [yearChars_of_neg hneg]
    obtain ⟨c, more, hdigits⟩ : ∃ c more, padded 4 second.year.toNat = c :: more :=
      List.exists_cons_of_length_eq_add_one (length_padded_year hsecond hlast)
    rw [hdigits]
    exact List.cons_lt_cons_iff.2 (.inl (dash_lt_digit
      (isDigits_padded 4 second.year.toNat c (hdigits ▸ List.mem_cons_self ..))))
  · have hyear : 0 ≤ first.year := Int.not_lt.1 hneg
    have hle : first.year ≤ 9999 := by omega
    rw [yearChars_of_nonneg hyear hle]
    exact append_dash_lt (isDigits_padded _ _) ((padded_lt_padded_iff (length_padded_year hyear hle)
      (length_padded_year hsecond hlast)).2 (by omega)) _ _

/-- Before the year 0 the digits behind the sign decide. -/
theorem text_lt_of_neg (hfirst : first.year < 0) (hsecond : second.year < 0)
    (h : padded 4 first.year.natAbs < padded 4 second.year.natAbs) : first.text < second.text := by
  rw [String.lt_iff_toList_lt, toList_text, toList_text, yearChars_of_neg hfirst,
    yearChars_of_neg hsecond]
  exact List.cons_lt_cons_iff.2 (.inr ⟨rfl, append_dash_lt (isDigits_padded _ _) h _ _⟩)

/-- A day and one that is no later are in the order of their texts, by their years: the first is
not before the year 0, or both are of one year, or the digits of the earlier year come first. -/
def InTextOrder (date earlier : Date) : Prop :=
  0 ≤ date.year ∨ earlier.year = date.year ∨
    padded 4 earlier.year.natAbs < padded 4 date.year.natAbs

instance (date earlier : Date) : Decidable (InTextOrder date earlier) :=
  inferInstanceAs (Decidable (_ ∨ _ ∨ _))

/-- When the text of a day that is no later comes no later. -/
theorem text_le_text_iff {earlier : Date} (hdate : date.IsDay) (hearlier : earlier.IsDay)
    (hlast : date.year ≤ 9999) (h : ¬ date.Precedes earlier) :
    earlier.text ≤ date.text ↔ date.InTextOrder earlier := by
  have hyear : earlier.year ≤ date.year := by
    by_contra hlt
    exact h (.inl (by omega))
  have hsame (heq : earlier.year = date.year) : earlier.text ≤ date.text := by
    rcases precedes_or_eq_or_precedes earlier date with hprecedes | rfl | hprecedes
    · exact le_of_lt (text_lt_of_sameYear hearlier hdate heq hprecedes)
    · exact le_refl _
    · exact absurd hprecedes h
  constructor
  · intro hle
    by_contra hnot
    simp only [InTextOrder, not_or, not_le, not_lt] at hnot
    obtain ⟨hneg, hne, hdigits⟩ := hnot
    -- The digits differ, so they come the other way round, and so do the texts.
    have hdiffer : padded 4 date.year.natAbs ≠ padded 4 earlier.year.natAbs := by
      intro heq
      have := padded_inj heq
      omega
    exact absurd (text_lt_of_neg hneg (by omega) (lt_of_le_of_ne hdigits hdiffer)) (not_lt.2 hle)
  · intro horder
    rcases lt_or_eq_of_le hyear with hlt | heq
    · by_cases hnonneg : 0 ≤ date.year
      · exact le_of_lt (text_lt_of_nonneg hnonneg hlast hlt)
      · rcases horder with hnonneg' | heq | hdigits
        · exact absurd hnonneg' hnonneg
        · exact hsame heq
        · exact le_of_lt (text_lt_of_neg (by omega) (by omega) hdigits)
    · exact hsame heq

end Date

/-! ## The dates of records -/

namespace Sample

/-- How many days lie between the dates of records that follow one another in a table. -/
def daysApart (table : String) : Nat :=
  if table = Schema.players then 1
  else if table = Schema.games then 30
  else if table = Schema.scores then 10
  else 5

/-- The day of the record with some number in a table. -/
def dateOf (today : Date) (table : String) (index : Nat) : Date :=
  today.daysBefore (index * daysApart table)

/-- The records of a table have their days in the date fields of its catalog. -/
def HasDates (today : Date) (table : String) (records : List Record) : Prop :=
  ∀ catalog, Schema.catalogOf? table = some catalog →
    ∀ field ∈ catalog.fields, field.kind = .date →
      ∀ (i : Nat) (record : Record), records[i]? = some record →
        record.view field.name = some (.string (dateOf today table i).text)

section Makers

variable {α : Type} {make : α → Generator → Record × Generator}

/-- A record of a table is made from the element with its number. -/
theorem exists_of_getElem?_generate {xs : List α} {generator : Generator} {i : Nat}
    {record : Record} (h : (generate make xs generator).1[i]? = some record) :
    ∃ x other, xs[i]? = some x ∧ record = (make x other).1 := by
  obtain ⟨hlt, -⟩ := List.getElem?_eq_some_iff.1 h
  rw [length_generate] at hlt
  have hx : xs[i]? = some xs[i] := List.getElem?_eq_getElem hlt
  obtain ⟨other, hrecord⟩ := getElem?_generate make hx generator
  exact ⟨xs[i], other, hx, Option.some.inj (h.symm.trans hrecord)⟩

theorem index_of_getElem?_range {count i index : Nat} (h : (List.range count)[i]? = some index) :
    index = i := by
  obtain ⟨hlt, rfl⟩ := List.getElem?_eq_some_iff.1 h
  exact List.getElem_range hlt

theorem index_of_getElem?_pairings {players games : List Record} {count i : Nat}
    {pairing : Pairing} (h : (pairings count players games)[i]? = some pairing) :
    pairing.index = i := by
  simp only [pairings, List.getElem?_map, Option.map_eq_some_iff] at h
  obtain ⟨index, hindex, rfl⟩ := h
  exact index_of_getElem?_range hindex

/-- A record that is given field by field has what it is given. -/
theorem view_record (generator : Generator) {fields : List (String × Json)} {name : String}
    {value : Json} (hnodup : (fields.map (·.1)).Nodup) (hmem : (name, value) ∈ fields) :
    (generator.record fields).1.view name = some value :=
  Keyed.get?_ofList hnodup hmem

end Makers

variable (today : Date) (generator : Generator)

theorem view_player (index : Nat) : (player today index generator).1.view "registrationDate" =
    some (.string (dateOf today Schema.players index).text) := by
  obtain ⟨points, active, random, hplayer⟩ := player_spec today index generator
  have hdate : dateOf today Schema.players index = today.daysBefore index := by
    rw [dateOf, daysApart, if_pos rfl, Nat.mul_one]
  rw [hplayer, hdate]
  exact view_record _ (by simp) (by simp [dated])

theorem view_game (index : Nat) : (game today index generator).1.view "releaseDate" =
    some (.string (dateOf today Schema.games index).text) :=
  view_record _ (by simp) (by simp [dated, dateOf, daysApart, Schema.games, Schema.players])

theorem view_scored (pairing : Pairing) : (scored today pairing generator).1.view "achievedDate" =
    some (.string (dateOf today Schema.scores pairing.index).text) := by
  obtain ⟨points, random, hscored⟩ := scored_spec today pairing generator
  rw [hscored]
  exact view_record _ (by simp)
    (by simp [dated, dateOf, daysApart, Schema.scores, Schema.games, Schema.players])

theorem view_achieved (pairing : Pairing) :
    (achieved today pairing generator).1.view "achievementDate" =
      some (.string (dateOf today Schema.achievements pairing.index).text) :=
  view_record _ (by simp) (by
    simp [dated, dateOf, daysApart, Schema.achievements, Schema.scores, Schema.games,
      Schema.players])

/-- Only one field of a built-in table is a date. -/
theorem hasDates_of_field {table : String} (name : String) {catalog : Catalog}
    {records : List Record} (hcatalog : Schema.catalogOf? table = some catalog)
    (hname : ∀ field ∈ catalog.fields, field.kind = .date → field.name = name)
    (hdates : ∀ (i : Nat) (record : Record), records[i]? = some record →
      record.view name = some (.string (dateOf today table i).text)) :
    HasDates today table records := by
  intro catalog' hcatalog' field hfield hkind i record hrecord
  obtain rfl : catalog = catalog' := Option.some.inj (hcatalog.symm.trans hcatalog')
  rw [hname field hfield hkind]
  exact hdates i record hrecord

theorem hasDates_filled (options : SampleOptions) :
    ∀ entry ∈ filled options, HasDates options.today entry.1 entry.2 := by
  intro entry hentry
  simp only [filled, List.mem_cons, List.not_mem_nil, or_false] at hentry
  rcases hentry with rfl | rfl | rfl | rfl
  · refine hasDates_of_field _ "registrationDate" rfl (by decide) fun i record h => ?_
    obtain ⟨index, other, hindex, rfl⟩ := exists_of_getElem?_generate h
    obtain rfl := index_of_getElem?_range hindex
    exact view_player _ _ _
  · refine hasDates_of_field _ "releaseDate" rfl (by decide) fun i record h => ?_
    obtain ⟨index, other, hindex, rfl⟩ := exists_of_getElem?_generate h
    obtain rfl := index_of_getElem?_range hindex
    exact view_game _ _ _
  · refine hasDates_of_field _ "achievedDate" rfl (by decide) fun i record h => ?_
    obtain ⟨pairing, other, hpairing, rfl⟩ := exists_of_getElem?_generate h
    obtain rfl := index_of_getElem?_pairings hpairing
    exact view_scored _ _ _
  · refine hasDates_of_field _ "achievementDate" rfl (by decide) fun i record h => ?_
    obtain ⟨pairing, other, hpairing, rfl⟩ := exists_of_getElem?_generate h
    obtain rfl := index_of_getElem?_pairings hpairing
    exact view_achieved _ _ _

/-- The records of each built-in table have their days. -/
theorem hasDates_sampleDataset (options : SampleOptions) :
    ∀ table ∈ Schema.tables,
      HasDates options.today table ((sampleDataset options).records table) := by
  by_cases hcount : options.count = 0
  · intro table _ catalog _ field _ _ i record hrecord
    have hempty : sampleDataset options = .empty := if_pos hcount
    rw [hempty] at hrecord
    cases hrecord
  · exact forall_tables hcount (hasDates_filled options)

/-! ## Rules on dates -/

/-- The first descriptor of each field of a built-in table is its own. -/
theorem kindOf_of_mem {table : String} {catalog : Catalog}
    (hcatalog : Schema.catalogOf? table = some catalog) :
    ∀ field ∈ catalog.fields, catalog.kindOf field.name = field.kind := by
  unfold Schema.catalogOf? at hcatalog
  split_ifs at hcatalog <;> obtain rfl := Option.some.inj hcatalog <;> decide

/-- A rule on a date that is there compares texts. -/
theorem matches_from_iff {catalog : Catalog} {view : FieldView} {name : String} {date : Date}
    (hkind : catalog.kindOf name = .date) (hview : view name = some (.string date.text))
    (text : String) :
    Rule.Matches catalog view ⟨name, .atLeast, .string text⟩ ↔ text ≤ date.text := by
  have hpresent : ¬ Missing (some (.string date.text)) := by
    simp [Missing, Date.text_ne_empty]
  rw [Rule.matches_iff_of_present catalog hview hpresent, Catalog.coerce, hkind]
  rfl

theorem isDay_dateOf (today : Date) (table : String) (index : Nat) :
    (dateOf today table index).IsDay :=
  Date.isDay_daysBefore _ _

/-- The days of a table never go forward. -/
theorem not_precedes_dateOf (today : Date) (table : String) {i j : Nat} (h : i ≤ j) :
    ¬ (dateOf today table i).Precedes (dateOf today table j) :=
  Date.not_precedes_daysBefore today (Nat.mul_le_mul_right _ h)

theorem year_dateOf_le {today : Date} (hday : today.IsDay) (hlast : today.year ≤ 9999)
    (table : String) (index : Nat) : (dateOf today table index).year ≤ 9999 := by
  have hle := Date.year_daysBefore_le hday (index * daysApart table)
  have hfirst : Date.first.year ≤ 9999 := by decide
  unfold dateOf
  omega

theorem exists_record (options : SampleOptions) {table : String} (htable : table ∈ Schema.tables)
    {i : Nat} (hi : i < options.count) :
    ∃ record, ((sampleDataset options).records table)[i]? = some record := by
  have hlength : ((sampleDataset options).records table).length = options.count := by
    refine forall_tables (P := fun _ records => records.length = options.count) (by omega) ?_
      table htable
    simp [filled]
  exact ⟨_, List.getElem?_eq_getElem (hlength.symm ▸ hi)⟩

/-- Two records of a table have their days in its date field. The day of the later record has the
lesser text, or the same, exactly if the two are in the order of their texts by their years; in
these cases and no others a rule that asks for dates from this day on matches the earlier record;
and as far as the year -1 it always does. No bound on the count is needed, since days are counted in
natural numbers; a machine word overflows at `index * 30` in `Sample.game` once thirty times the
count is 2^64 or more. -/
theorem dates_inTextOrder_iff (options : SampleOptions) (hday : options.today.IsDay)
    (hlast : options.today.year ≤ 9999) {table : String} (htable : table ∈ Schema.tables)
    {catalog : Catalog} (hcatalog : Schema.catalogOf? table = some catalog) {field : Field}
    (hfield : field ∈ catalog.fields) (hkind : field.kind = .date) {i j : Nat} (hij : i < j)
    {earlier later : Record}
    (hearlier : ((sampleDataset options).records table)[i]? = some earlier)
    (hlater : ((sampleDataset options).records table)[j]? = some later) :
    let date := dateOf options.today table i
    let dateBack := dateOf options.today table j
    earlier.view field.name = some (.string date.text) ∧
      later.view field.name = some (.string dateBack.text) ∧
      (dateBack.text ≤ date.text ↔ date.InTextOrder dateBack) ∧
      (Rule.Matches catalog earlier.view ⟨field.name, .atLeast, .string dateBack.text⟩ ↔
        date.InTextOrder dateBack) ∧
      (-1 ≤ dateBack.year → date.InTextOrder dateBack) := by
  intro date dateBack
  have hdates := hasDates_sampleDataset options table htable catalog hcatalog field hfield hkind
  have hview : earlier.view field.name = some (.string date.text) := hdates i earlier hearlier
  have hviewBack : later.view field.name = some (.string dateBack.text) := hdates j later hlater
  have hback : ¬ date.Precedes dateBack :=
    not_precedes_dateOf options.today table (Nat.le_of_lt hij)
  have horder : dateBack.text ≤ date.text ↔ date.InTextOrder dateBack :=
    Date.text_le_text_iff (isDay_dateOf _ _ _) (isDay_dateOf _ _ _)
      (year_dateOf_le hday hlast table i) hback
  refine ⟨hview, hviewBack, horder, ?_, fun hyear => ?_⟩
  · rw [matches_from_iff ((kindOf_of_mem hcatalog field hfield).trans hkind) hview]
    exact horder
  · -- Either the year of the first day is not before the year 0, or both are the year -1.
    have hle : dateBack.year ≤ date.year := by
      by_contra hlt
      exact hback (.inl (Int.not_le.1 hlt))
    rcases Int.lt_or_le date.year 0 with hneg | hnonneg
    · exact .inr (.inl (by omega))
    · exact .inl hnonneg

theorem games_mem_tables : Schema.games ∈ Schema.tables := by decide

theorem catalogOf?_games : Schema.catalogOf? Schema.games = some Schema.gameFields := rfl

/-- The field with the date of a game. -/
def releaseDate : Field := Schema.edited "releaseDate" "Release Date" .date

theorem releaseDate_mem : releaseDate ∈ Schema.gameFields.fields := by decide

/-- Two games, the first of the last day of a February. -/
def leapDayOptions : SampleOptions := ⟨2, 7, ⟨2024, 2, 29⟩, 0⟩

/-- What comes thirty days before is of the month before the last. -/
theorem dates_inTextOrder_leapDay : ∃ earlier later,
    ((sampleDataset leapDayOptions).records Schema.games)[0]? = some earlier ∧
      ((sampleDataset leapDayOptions).records Schema.games)[1]? = some later ∧
      later.view "releaseDate" = some (.string "2024-01-30") ∧
      Rule.Matches Schema.gameFields earlier.view
        ⟨"releaseDate", .atLeast, .string "2024-01-30"⟩ := by
  obtain ⟨earlier, hearlier⟩ := exists_record leapDayOptions games_mem_tables Nat.zero_lt_two
  obtain ⟨later, hlater⟩ := exists_record leapDayOptions games_mem_tables Nat.one_lt_two
  have hday : leapDayOptions.today.IsDay := ⟨by decide, by decide, 29, by decide, by decide⟩
  have htext : (dateOf leapDayOptions.today Schema.games 1).text = "2024-01-30" := by
    decide +kernel
  obtain ⟨-, hview, -, hmatches, hyear⟩ := dates_inTextOrder_iff leapDayOptions hday (by decide)
    games_mem_tables catalogOf?_games releaseDate_mem rfl Nat.zero_lt_one hearlier hlater
  have horder := hyear (by decide +kernel)
  rw [htext] at hview hmatches
  exact ⟨earlier, later, hearlier, hlater, hview, hmatches.2 horder⟩

/-- Games thirty days apart that reach back to the year -2. -/
def yearZeroOptions : SampleOptions := ⟨14, 7, ⟨0, 1, 1⟩, 0⟩

/-- The second game came out a year after the last one, and the text of its date comes before. -/
theorem dates_not_inTextOrder : yearZeroOptions.today.IsDay ∧ ∃ earlier later,
    ((sampleDataset yearZeroOptions).records Schema.games)[1]? = some earlier ∧
      ((sampleDataset yearZeroOptions).records Schema.games)[13]? = some later ∧
      earlier.view "releaseDate" = some (.string "-0001-12-02") ∧
      later.view "releaseDate" = some (.string "-0002-12-07") ∧
      ¬ "-0002-12-07" ≤ "-0001-12-02" ∧
      ¬ Rule.Matches Schema.gameFields earlier.view
        ⟨"releaseDate", .atLeast, .string "-0002-12-07"⟩ := by
  obtain ⟨earlier, hearlier⟩ := exists_record yearZeroOptions games_mem_tables
    (show 1 < 14 by decide)
  obtain ⟨later, hlater⟩ := exists_record yearZeroOptions games_mem_tables
    (show 13 < 14 by decide)
  have hdates := hasDates_sampleDataset yearZeroOptions Schema.games games_mem_tables
    Schema.gameFields catalogOf?_games releaseDate releaseDate_mem rfl
  have hview := hdates 1 earlier hearlier
  have hviewLater := hdates 13 later hlater
  have hkind : Schema.gameFields.kindOf releaseDate.name = .date := rfl
  have htext : (dateOf yearZeroOptions.today Schema.games 1).text = "-0001-12-02" := by
    decide +kernel
  have htextLater : (dateOf yearZeroOptions.today Schema.games 13).text = "-0002-12-07" := by
    decide +kernel
  have hnot : ¬ "-0002-12-07" ≤ "-0001-12-02" := by decide
  have hrule := (matches_from_iff hkind hview "-0002-12-07").not
  rw [htext] at hview hrule
  rw [htextLater] at hviewLater
  exact ⟨⟨by decide, by decide, 31, by decide, by decide⟩, earlier, later, hearlier, hlater, hview,
    hviewLater, hnot, hrule.2 hnot⟩

end Sample

end RecordQuery
