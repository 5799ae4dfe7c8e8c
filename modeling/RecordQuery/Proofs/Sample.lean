/-
RecordQuery.Proofs.Sample — sample data fits the built-in tables and itself.

The four tables are filled one after the other with one generator, whose state
goes from record to record. A maker of records takes the time of the clock for
its record and moves the clock on by one (`Ticks`); by induction over the
elements, the records of a table have the times that follow one another from
the time at which the table was begun, and the clock stands after them, where
the next table begins. What a record holds does not depend on the state of the
generator beyond a random number, so it is shown for each maker alone.

Main definitions:
* `FieldKind.Fits`, `Catalog.Fits`, `Record.RefersTo`;
* `Dataset.IsSample`.

Main statements:
* `Catalog.fits_ofList` — a record given field by field in the order of a catalog;
* `Ticks.created`, `Ticks.clock` — times of a table;
* `isSample_sampleDataset` — all four tables.
-/
import Mathlib.Data.List.Forall2
import RecordQuery.Proofs.Keyed
import RecordQuery.Sample.Dataset

namespace RecordQuery

/-! ## Records that fit a catalog -/

/-- A value is of a kind; a text or a date is not empty. -/
def FieldKind.Fits : FieldKind → Json → Prop
  | .number, .number _ => True
  | .boolean, .bool _ => True
  | .text, .string content | .date, .string content => content ≠ ""
  | _, _ => False

theorem FieldKind.Fits.isMissing_eq_false {kind : FieldKind} {value : Json}
    (h : kind.Fits value) : value.isMissing = false := by
  cases kind <;> cases value <;> simp_all [FieldKind.Fits, Json.isMissing]

/-- A record has the fields of a catalog and no others, each with a value of its kind, so that it
is not missing. -/
structure Catalog.Fits (catalog : Catalog) (record : Record) : Prop where
  names : record.fields.keys.Perm (catalog.fields.map (·.name))
  values : ∀ field ∈ catalog.fields, ∃ value, record.fields.get? field.name = some value ∧
    field.kind.Fits value ∧ value.isMissing = false

/-- A member is given for a field: under its name, with a value of its kind. -/
def Field.Given (field : Field) (member : String × Json) : Prop :=
  field.name = member.1 ∧ field.kind.Fits member.2

/-- A record that is given field by field in the order of a catalog fits it. -/
theorem Catalog.fits_ofList {catalog : Catalog} {members : List (String × Json)} {id : String}
    {created : Int64} (hnodup : (catalog.fields.map (·.name)).Nodup)
    (h : List.Forall₂ Field.Given catalog.fields members) :
    catalog.Fits ⟨id, created, .ofList members⟩ := by
  have hnames : catalog.fields.map (·.name) = members.map (·.1) := by
    rw [← List.forall₂_eq_eq_eq, List.forall₂_map_left_iff, List.forall₂_map_right_iff]
    exact h.imp fun _ _ hgiven => hgiven.1
  refine ⟨hnames ▸ Keyed.keys_ofList_perm (hnames ▸ hnodup), fun field hfield => ?_⟩
  obtain ⟨i, rfl⟩ := List.mem_iff_get.1 hfield
  have hgiven := h.get i.2 (h.length_eq ▸ i.2)
  exact ⟨_, Keyed.get?_ofList (hnames ▸ hnodup) (hgiven.1 ▸ List.get_mem ..), hgiven.2,
    hgiven.2.isMissing_eq_false⟩

/-! ## Random numbers and texts -/

theorem Random.belowWithin_lt {bound : Nat} (h : 0 < bound) (draws : Nat) (random : Random) :
    (random.belowWithin bound draws).1 < bound := by
  induction draws generalizing random with
  | zero => exact h
  | succ draws ih =>
    simp only [belowWithin]
    split
    · exact ih _
    · have hword : random.next.1.toNat % 2 ^ 32 < 2 ^ 32 := Nat.mod_lt _ (by decide)
      exact Nat.div_lt_of_lt_mul (Nat.mul_lt_mul_of_pos_right hword h)

theorem Random.identifier_ne_empty (random : Random) : random.identifier.1 ≠ "" := by
  intro h
  have hchars := congrArg String.toList h
  simp [identifier, identifierChars, List.intercalate] at hchars

theorem Date.text_ne_empty (date : Date) : date.text ≠ "" := by
  intro h
  have hchars := congrArg String.toList h
  simp [text] at hchars

/-! ## One record -/

namespace Generator

variable (generator : Generator) (fields : List (String × Json))

theorem record_id_ne_empty : (generator.record fields).1.id ≠ "" :=
  Random.identifier_ne_empty generator.random

/-- A record that is given field by field in the order of a catalog fits it. -/
theorem fits_record {catalog : Catalog} (hnodup : (catalog.fields.map (·.name)).Nodup)
    (h : List.Forall₂ Field.Given catalog.fields fields) :
    catalog.Fits (generator.record fields).1 :=
  Catalog.fits_ofList hnodup h

end Generator

/-- A maker takes the time of the clock for its record and moves the clock on by one. -/
structure Ticks {α : Type} (make : α → Generator → Record × Generator) : Prop where
  created_eq : ∀ x generator, (make x generator).1.created = generator.clock
  clock_eq : ∀ x generator, (make x generator).2.clock = generator.clock + 1

theorem Json.exists_ofNat_eq {n : Nat} (h : n ≤ 18446744073709551615) :
    ∃ number, Json.ofNat n = .number number :=
  ⟨_, dif_pos h⟩

namespace Sample

variable (today : Date) (index : Nat) (pairing : Pairing) (generator : Generator)

theorem score_spec :
    ∃ points random, score generator = (.number points, { generator with random := random }) := by
  have hlt : (generator.random.below scoreLimit).1 < scoreLimit :=
    Random.belowWithin_lt (by decide) Random.period generator.random
  obtain ⟨number, hnumber⟩ := Json.exists_ofNat_eq (Nat.le_trans (Nat.le_of_lt hlt) (by decide))
  exact ⟨number, (generator.random.below scoreLimit).2, by rw [← hnumber]; rfl⟩

/-- A player is a record that the generator makes after some random numbers. -/
theorem player_spec : ∃ points active random,
    player today index generator = { generator with random := random }.record
      [("name", numbered "Player " index),
        ("email", .string s!"player{index + 1}@example.com"),
        ("registrationDate", dated today index),
        ("totalScore", .number points),
        ("isActive", .bool active)] := by
  obtain ⟨points, random, hscore⟩ := score_spec generator
  exact ⟨points, _, random.fraction.2, by rw [player, hscore]⟩

theorem scored_spec : ∃ points random,
    scored today pairing generator = { generator with random := random }.record
      [("playerId", .string pairing.playerId), ("gameId", .string pairing.gameId),
        ("score", .number points), ("achievedDate", dated today (pairing.index * 10))] := by
  obtain ⟨points, random, hscore⟩ := score_spec generator
  exact ⟨points, random, by rw [scored, hscore]⟩

theorem ticks_player : Ticks (player today) := ⟨fun _ _ => rfl, fun _ _ => rfl⟩

theorem ticks_game : Ticks (game today) := ⟨fun _ _ => rfl, fun _ _ => rfl⟩

theorem ticks_scored : Ticks (scored today) := ⟨fun _ _ => rfl, fun _ _ => rfl⟩

theorem ticks_achieved : Ticks (achieved today) := ⟨fun _ _ => rfl, fun _ _ => rfl⟩

theorem player_id_ne_empty : (player today index generator).1.id ≠ "" := by
  obtain ⟨points, active, random, hplayer⟩ := player_spec today index generator
  rw [hplayer]
  exact Generator.record_id_ne_empty _ _

theorem game_id_ne_empty : (game today index generator).1.id ≠ "" :=
  Generator.record_id_ne_empty _ _

theorem fits_numbered {text : String} (h : text ≠ "") :
    FieldKind.text.Fits (numbered text index) := by
  intro hempty
  exact h (String.append_eq_empty_iff.1 hempty).1

theorem fits_dated (days : Nat) : FieldKind.date.Fits (dated today days) :=
  Date.text_ne_empty _

theorem fits_player : Schema.playerFields.Fits (player today index generator).1 := by
  have hemail : s!"player{index + 1}@example.com" ≠ "" := by simp [String.append_eq_empty_iff]
  obtain ⟨points, active, random, hplayer⟩ := player_spec today index generator
  rw [hplayer]
  refine Generator.fits_record _ _ (by decide) ?_
  exact .cons ⟨rfl, fits_numbered index (by decide)⟩ (.cons ⟨rfl, hemail⟩
    (.cons ⟨rfl, fits_dated _ _⟩ (.cons ⟨rfl, trivial⟩ (.cons ⟨rfl, trivial⟩ .nil))))

theorem fits_game : Schema.gameFields.Fits (game today index generator).1 := by
  refine Generator.fits_record _ _ (by decide) ?_
  exact .cons ⟨rfl, fits_numbered index (by decide)⟩
    (.cons ⟨rfl, fits_numbered index (by decide)⟩ (.cons ⟨rfl, fits_dated _ _⟩ .nil))

/-- What a pairing refers to has an id. -/
def Pairing.IsNamed (pairing : Pairing) : Prop := pairing.playerId ≠ "" ∧ pairing.gameId ≠ ""

variable {pairing}

theorem fits_scored (h : pairing.IsNamed) (generator : Generator) :
    Schema.scoreFields.Fits (scored today pairing generator).1 := by
  obtain ⟨points, random, hscored⟩ := scored_spec today pairing generator
  rw [hscored]
  refine Generator.fits_record _ _ (by decide) ?_
  exact .cons ⟨rfl, h.1⟩ (.cons ⟨rfl, h.2⟩
    (.cons ⟨rfl, trivial⟩ (.cons ⟨rfl, fits_dated _ _⟩ .nil)))

theorem fits_achieved (h : pairing.IsNamed) (generator : Generator) :
    Schema.achievementFields.Fits (achieved today pairing generator).1 := by
  refine Generator.fits_record _ _ (by decide) ?_
  exact .cons ⟨rfl, h.1⟩ (.cons ⟨rfl, h.2⟩
    (.cons ⟨rfl, fits_numbered _ (by decide)⟩ (.cons ⟨rfl, fits_dated _ _⟩ .nil)))

end Sample

/-! ## The records of a table -/

section Table

variable {α : Type} {make : α → Generator → Record × Generator}

@[simp] theorem generate_nil (generator : Generator) :
    generate make [] generator = ([], generator) := rfl

@[simp] theorem generate_cons (x : α) (xs : List α) (generator : Generator) :
    generate make (x :: xs) generator =
      let rest := generate make xs (make x generator).2
      ((make x generator).1 :: rest.1, rest.2) := rfl

@[simp] theorem length_generate (xs : List α) (generator : Generator) :
    (generate make xs generator).1.length = xs.length := by
  induction xs generalizing generator with
  | nil => rfl
  | cons x xs ih => simp [ih]

variable (make) in
/-- The record with some number is made from the element with that number. -/
theorem getElem?_generate {xs : List α} {i : Nat} {x : α} (h : xs[i]? = some x)
    (generator : Generator) :
    ∃ other, (generate make xs generator).1[i]? = some (make x other).1 := by
  induction xs generalizing i generator with
  | nil => simp at h
  | cons y ys ih =>
    cases i with
    | zero =>
      obtain rfl : y = x := by simpa using h
      exact ⟨generator, rfl⟩
    | succ i => exact ih h _

/-- What holds of every record that an element can give holds of the records of a table. -/
theorem forall_mem_generate {P : Record → Prop} {xs : List α}
    (h : ∀ x ∈ xs, ∀ other, P (make x other).1) (generator : Generator) :
    ∀ record ∈ (generate make xs generator).1, P record := by
  induction xs generalizing generator with
  | nil => simp
  | cons x xs ih =>
    intro record hrecord
    rcases List.mem_cons.1 hrecord with rfl | hrecord
    · exact h x (List.mem_cons_self ..) generator
    · exact ih (fun y hy => h y (List.mem_cons_of_mem _ hy)) _ record hrecord

/-- A time and those that follow one another from it. -/
def timesFrom (start : Int64) (count : Nat) : List Int64 :=
  (List.range count).map fun i => start + .ofNat i

theorem add_ofNat_succ (start : Int64) (count : Nat) :
    start + 1 + .ofNat count = start + .ofNat (count + 1) := by
  rw [Int64.ofNat_add, Int64.add_assoc, Int64.add_comm 1]
  rfl

theorem timesFrom_succ (start : Int64) (count : Nat) :
    timesFrom start (count + 1) = start :: timesFrom (start + 1) count := by
  simp [timesFrom, List.range_succ_eq_map, add_ofNat_succ, Function.comp_def]

theorem timesFrom_add (start : Int64) (count more : Nat) :
    timesFrom start (count + more) =
      timesFrom start count ++ timesFrom (start + .ofNat count) more := by
  simp [timesFrom, List.range_add, Int64.ofNat_add, Int64.add_assoc]

/-- After a table the clock stands behind the times of its records. -/
theorem Ticks.clock (h : Ticks make) (xs : List α) (generator : Generator) :
    (generate make xs generator).2.clock = generator.clock + .ofNat xs.length := by
  induction xs generalizing generator with
  | nil => simp
  | cons x xs ih => simp [ih, h.clock_eq, add_ofNat_succ]

/-- The records of a table follow one another in time. -/
theorem Ticks.created (h : Ticks make) (xs : List α) (generator : Generator) :
    (generate make xs generator).1.map (·.created) = timesFrom generator.clock xs.length := by
  induction xs generalizing generator with
  | nil => rfl
  | cons x xs ih => simp [ih, h.created_eq, h.clock_eq, timesFrom_succ]

/-- Times follow one another without a jump as far as the last is a 64-bit integer. -/
theorem toInt_timesFrom {start : Int64} {count : Nat}
    (h : start.toInt + count ≤ 9223372036854775808) :
    (timesFrom start count).map (·.toInt) =
      (List.range count).map fun i : Nat => start.toInt + i := by
  simp only [timesFrom, List.map_map]
  refine List.map_congr_left fun i hi => ?_
  have hlt := List.mem_range.1 hi
  have hlower := Int64.le_toInt start
  simp only [Function.comp_apply, Int64.toInt_add, Int64.toInt_ofNat', Int64.size]
  rw [Int.add_bmod_bmod, Int.bmod_eq_of_le] <;> omega

end Table

/-! ## References -/

/-- A record names a player and a game by their ids. -/
def Record.RefersTo (record player game : Record) : Prop :=
  record.fields.get? "playerId" = some (.string player.id) ∧
    record.fields.get? "gameId" = some (.string game.id)

theorem Generator.refersTo_record (generator : Generator) {fields : List (String × Json)}
    {player game : Record} (h : (fields.map (·.1)).Nodup)
    (hplayer : ("playerId", .string player.id) ∈ fields)
    (hgame : ("gameId", .string game.id) ∈ fields) :
    (generator.record fields).1.RefersTo player game :=
  ⟨Keyed.get?_ofList h hplayer, Keyed.get?_ofList h hgame⟩

namespace Sample

variable {players games : List Record}

/-- The first turn takes the ids in the order of the records. -/
theorem inTurn_of_getElem? {records : List Record} {i : Nat} {record : Record}
    (h : records[i]? = some record) : inTurn (records.map (·.id)).toArray i = record.id := by
  obtain ⟨hlt, -⟩ := List.getElem?_eq_some_iff.1 h
  simp [inTurn, Nat.mod_eq_of_lt hlt, h]

@[simp] theorem length_pairings (count : Nat) : (pairings count players games).length = count := by
  simp [pairings]

theorem getElem?_pairings {count i : Nat} {player game : Record} (hi : i < count)
    (hplayer : players[i]? = some player) (hgame : games[i]? = some game) :
    (pairings count players games)[i]? = some ⟨i, player.id, game.id⟩ := by
  simp [pairings, hi, inTurn_of_getElem? hplayer, inTurn_of_getElem? hgame]

theorem isNamed_of_mem_pairings {count : Nat} (hplayers : ∀ player ∈ players, player.id ≠ "")
    (hgames : ∀ game ∈ games, game.id ≠ "") (hlength : players.length = count)
    (hlength' : games.length = count) :
    ∀ pairing ∈ pairings count players games, pairing.IsNamed := by
  intro pairing hpairing
  obtain ⟨i, hi, rfl⟩ := List.mem_map.1 hpairing
  have hlt := List.mem_range.1 hi
  have hplayer : players[i]? = some players[i] := List.getElem?_eq_getElem (hlength ▸ hlt)
  have hgame : games[i]? = some games[i] := List.getElem?_eq_getElem (hlength' ▸ hlt)
  rw [inTurn_of_getElem? hplayer, inTurn_of_getElem? hgame]
  exact ⟨hplayers _ (List.getElem_mem _), hgames _ (List.getElem_mem _)⟩

theorem refersTo_scored (today : Date) (i : Nat) (player game : Record) (generator : Generator) :
    (scored today ⟨i, player.id, game.id⟩ generator).1.RefersTo player game := by
  obtain ⟨points, random, hscored⟩ := scored_spec today ⟨i, player.id, game.id⟩ generator
  rw [hscored]
  exact Generator.refersTo_record _ (by simp) (by simp) (by simp)

theorem refersTo_achieved (today : Date) (i : Nat) (player game : Record) (generator : Generator) :
    (achieved today ⟨i, player.id, game.id⟩ generator).1.RefersTo player game :=
  Generator.refersTo_record _ (by simp) (by simp) (by simp)

end Sample

/-! ## All tables -/

/-- The records of a table; none if there is no such table. -/
def Dataset.records (dataset : Dataset) (table : String) : List Record :=
  (dataset.table? table).getD []

/-- The built-in tables and no others, each with a number of records that fit its catalog; records
of the same number belong together, and each was made one millisecond after the last. -/
structure Dataset.IsSample (dataset : Dataset) (count : Nat) (start : Int) : Prop where
  tables : dataset.tables.keys.Perm Schema.tables
  length : ∀ table ∈ Schema.tables, (dataset.records table).length = count
  fits : ∀ table ∈ Schema.tables, ∃ catalog, Schema.catalogOf? table = some catalog ∧
    ∀ record ∈ dataset.records table, catalog.Fits record
  references : ∀ table ∈ [Schema.scores, Schema.achievements], ∀ i < count,
    ∃ record player game, (dataset.records table)[i]? = some record ∧
      (dataset.records Schema.players)[i]? = some player ∧
      (dataset.records Schema.games)[i]? = some game ∧ record.RefersTo player game
  created : (Schema.tables.flatMap dataset.records).map (·.created.toInt) =
    (List.range (4 * count)).map fun i : Nat => start + i

namespace Sample

variable (options : SampleOptions)

/-- The players, and the generator after them. -/
def playerRun : List Record × Generator :=
  generate (player options.today) (List.range options.count) ⟨⟨options.seed⟩, options.start⟩

/-- The games, and the generator after them. -/
def gameRun : List Record × Generator :=
  generate (game options.today) (List.range options.count) (playerRun options).2

/-- What scores and achievements refer to. -/
def pairs : List Pairing := pairings options.count (playerRun options).1 (gameRun options).1

/-- The scores, and the generator after them. -/
def scoreRun : List Record × Generator :=
  generate (scored options.today) (pairs options) (gameRun options).2

/-- The achievements, and the generator after them. -/
def achievementRun : List Record × Generator :=
  generate (achieved options.today) (pairs options) (scoreRun options).2

/-- The tables in the order in which they are filled. -/
def filled : List (String × List Record) :=
  [(Schema.players, (playerRun options).1), (Schema.games, (gameRun options).1),
    (Schema.scores, (scoreRun options).1), (Schema.achievements, (achievementRun options).1)]

theorem map_fst_filled : (filled options).map (·.1) = Schema.tables := rfl

theorem nodup_filled : ((filled options).map (·.1)).Nodup := by
  rw [map_fst_filled]
  decide

variable {options}

theorem sampleDataset_eq (h : options.count ≠ 0) :
    sampleDataset options = ⟨Dataset.currentVersion, .ofList (filled options)⟩ :=
  if_neg h

/-- The dataset has each table as it is filled. -/
theorem records_sampleDataset (h : options.count ≠ 0) :
    ∀ entry ∈ filled options, (sampleDataset options).records entry.1 = entry.2 := by
  intro entry hentry
  have hget : (Keyed.ofList (filled options)).get? entry.1 = some entry.2 :=
    Keyed.get?_ofList (nodup_filled options) hentry
  simp [sampleDataset_eq h, Dataset.records, Dataset.table?, hget]

/-- What holds of each table as it is filled holds of each built-in table of the dataset. -/
theorem forall_tables {P : String → List Record → Prop} (h : options.count ≠ 0)
    (hP : ∀ entry ∈ filled options, P entry.1 entry.2) :
    ∀ table ∈ Schema.tables, P table ((sampleDataset options).records table) := by
  intro table htable
  rw [← map_fst_filled options] at htable
  obtain ⟨entry, hentry, rfl⟩ := List.mem_map.1 htable
  rw [records_sampleDataset h entry hentry]
  exact hP entry hentry

/-! ### Lengths and times -/

variable (options)

@[simp] theorem length_playerRun : (playerRun options).1.length = options.count := by
  simp [playerRun]

@[simp] theorem length_gameRun : (gameRun options).1.length = options.count := by
  simp [gameRun]

@[simp] theorem length_pairs : (pairs options).length = options.count := by
  simp [pairs]

@[simp] theorem length_scoreRun : (scoreRun options).1.length = options.count := by
  simp [scoreRun]

@[simp] theorem length_achievementRun : (achievementRun options).1.length = options.count := by
  simp [achievementRun]

/-- The clock goes on from table to table. -/
theorem created_filled : ((filled options).flatMap (·.2)).map (·.created) =
    timesFrom options.start (4 * options.count) := by
  have hcount : 4 * options.count =
      options.count + (options.count + (options.count + options.count)) := by omega
  rw [hcount, timesFrom_add, timesFrom_add, timesFrom_add]
  simp [filled, playerRun, gameRun, scoreRun, achievementRun,
    (ticks_player _).created, (ticks_game _).created, (ticks_scored _).created,
    (ticks_achieved _).created, (ticks_player _).clock, (ticks_game _).clock,
    (ticks_scored _).clock]

theorem created_sampleDataset (h : options.count ≠ 0) :
    (Schema.tables.flatMap (sampleDataset options).records).map (·.created) =
      timesFrom options.start (4 * options.count) := by
  rw [← map_fst_filled options, List.flatMap_map, List.flatMap_congr (records_sampleDataset h)]
  exact created_filled options

/-! ### What the records hold -/

theorem fits_playerRun : ∀ record ∈ (playerRun options).1, Schema.playerFields.Fits record :=
  forall_mem_generate (fun index _ => fits_player options.today index) _

theorem fits_gameRun : ∀ record ∈ (gameRun options).1, Schema.gameFields.Fits record :=
  forall_mem_generate (fun index _ => fits_game options.today index) _

theorem isNamed_of_mem_pairs : ∀ pairing ∈ pairs options, pairing.IsNamed :=
  isNamed_of_mem_pairings
    (forall_mem_generate (fun index _ => player_id_ne_empty options.today index) _)
    (forall_mem_generate (fun index _ => game_id_ne_empty options.today index) _)
    (length_playerRun options) (length_gameRun options)

theorem fits_scoreRun : ∀ record ∈ (scoreRun options).1, Schema.scoreFields.Fits record :=
  forall_mem_generate (fun pairing hpairing =>
    fits_scored options.today (isNamed_of_mem_pairs options pairing hpairing)) _

theorem fits_achievementRun :
    ∀ record ∈ (achievementRun options).1, Schema.achievementFields.Fits record :=
  forall_mem_generate (fun pairing hpairing =>
    fits_achieved options.today (isNamed_of_mem_pairs options pairing hpairing)) _

theorem catalogOf?_filled : ∀ entry ∈ filled options, ∃ catalog,
    Schema.catalogOf? entry.1 = some catalog ∧ ∀ record ∈ entry.2, catalog.Fits record := by
  intro entry hentry
  simp only [filled, List.mem_cons, List.not_mem_nil, or_false] at hentry
  rcases hentry with rfl | rfl | rfl | rfl
  · exact ⟨_, rfl, fits_playerRun options⟩
  · exact ⟨_, rfl, fits_gameRun options⟩
  · exact ⟨_, rfl, fits_scoreRun options⟩
  · exact ⟨_, rfl, fits_achievementRun options⟩

/-- The scores and the achievements refer to the player and the game of their number. -/
theorem references_runs {i : Nat} (hi : i < options.count) : ∃ player game score achievement,
    (playerRun options).1[i]? = some player ∧ (gameRun options).1[i]? = some game ∧
      ((scoreRun options).1[i]? = some score ∧ score.RefersTo player game) ∧
      ((achievementRun options).1[i]? = some achievement ∧ achievement.RefersTo player game) := by
  obtain ⟨player, hplayer⟩ : ∃ player, (playerRun options).1[i]? = some player :=
    ⟨_, List.getElem?_eq_getElem (by simpa using hi)⟩
  obtain ⟨game, hgame⟩ : ∃ game, (gameRun options).1[i]? = some game :=
    ⟨_, List.getElem?_eq_getElem (by simpa using hi)⟩
  have hpair : (pairs options)[i]? = some ⟨i, player.id, game.id⟩ :=
    getElem?_pairings hi hplayer hgame
  obtain ⟨before, hscore⟩ := getElem?_generate (scored options.today) hpair (gameRun options).2
  obtain ⟨later, hachievement⟩ :=
    getElem?_generate (achieved options.today) hpair (scoreRun options).2
  exact ⟨player, game, _, _, hplayer, hgame, ⟨hscore, refersTo_scored ..⟩,
    ⟨hachievement, refersTo_achieved ..⟩⟩

theorem references_sampleDataset (h : options.count ≠ 0) :
    ∀ table ∈ [Schema.scores, Schema.achievements], ∀ i < options.count,
      ∃ record player game, ((sampleDataset options).records table)[i]? = some record ∧
        ((sampleDataset options).records Schema.players)[i]? = some player ∧
        ((sampleDataset options).records Schema.games)[i]? = some game ∧
        record.RefersTo player game := by
  intro table htable i hi
  obtain ⟨player, game, score, achievement, hplayer, hgame, hscore, hachievement⟩ :=
    references_runs options hi
  have hrecords := records_sampleDataset h
  simp only [filled, List.forall_mem_cons] at hrecords
  obtain ⟨hplayers, hgames, hscores, hachievements, -⟩ := hrecords
  rw [hplayers, hgames]
  simp only [List.mem_cons, List.not_mem_nil, or_false] at htable
  rcases htable with rfl | rfl
  · exact ⟨score, player, game, hscores ▸ hscore.1, hplayer, hgame, hscore.2⟩
  · exact ⟨achievement, player, game, hachievements ▸ hachievement.1, hplayer, hgame,
      hachievement.2⟩

end Sample

/-- Sample data has no tables for a count of zero, and otherwise fits the built-in tables and
itself, as far as the clock stays a 64-bit integer. Days are counted in natural numbers: `index * 30`
in `Sample.game` does not overflow, as it would in a machine word once thirty times the count is
2^64 or more. -/
theorem isSample_sampleDataset (options : SampleOptions)
    (h : options.start.toInt + 4 * options.count ≤ 9223372036854775807) :
    (options.count = 0 → sampleDataset options = .empty) ∧
      (options.count ≠ 0 →
        (sampleDataset options).IsSample options.count options.start.toInt) := by
  refine ⟨fun hcount => if_pos hcount, fun hcount => ?_⟩
  constructor
  case tables =>
    rw [Sample.sampleDataset_eq hcount]
    exact Keyed.keys_ofList_perm (Sample.nodup_filled options)
  case length =>
    refine Sample.forall_tables (P := fun _ records => records.length = options.count) hcount ?_
    simp [Sample.filled]
  case fits =>
    exact Sample.forall_tables (P := fun table records => ∃ catalog,
        Schema.catalogOf? table = some catalog ∧ ∀ record ∈ records, catalog.Fits record)
      hcount (Sample.catalogOf?_filled options)
  case references => exact Sample.references_sampleDataset options hcount
  case created =>
    have hlast : options.start.toInt + (4 * options.count : Nat) ≤ 9223372036854775808 := by omega
    rw [← toInt_timesFrom hlast, ← Sample.created_sampleDataset options hcount, List.map_map]
    rfl

/-- Two records a table, up to the last time that there is. -/
theorem isSample_sampleDataset_latest :
    (9223372036854775799 : Int64).toInt + 4 * (2 : Nat) ≤ 9223372036854775807 ∧
      (sampleDataset ⟨2, 7, ⟨2024, 3, 15⟩, 9223372036854775799⟩).IsSample 2 9223372036854775799 :=
  ⟨by decide, (isSample_sampleDataset ⟨2, 7, ⟨2024, 3, 15⟩, 9223372036854775799⟩ (by decide)).2
    (by decide)⟩

end RecordQuery
