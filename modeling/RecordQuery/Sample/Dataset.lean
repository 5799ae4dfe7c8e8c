/-
RecordQuery.Sample.Dataset — sample records for the built-in tables.

Players and games are made first, then one score and one achievement for each
pair of a player and the game made with it. The same seed, day and clock give
the same dataset.

Main definitions:
* `Generator`, `Generator.record`, `generate`;
* `SampleOptions`, `sampleDataset`.
-/
import RecordQuery.Dataset.Basic
import RecordQuery.Sample.Random
import RecordQuery.Sample.Calendar
import RecordQuery.Schema

namespace RecordQuery

/-- Random numbers and the time of the next record. -/
structure Generator where
  random : Random
  clock : Int64

/-- A record with a random id; the clock goes on by one. -/
def Generator.record (generator : Generator) (fields : List (String × Json)) :
    Record × Generator :=
  let (id, random) := generator.random.identifier
  (⟨id, generator.clock, .ofList fields⟩, ⟨random, generator.clock + 1⟩)

/-- One record for each element of a list. -/
def generate {α : Type} (make : α → Generator → Record × Generator) :
    List α → Generator → List Record × Generator
  | [], generator => ([], generator)
  | x :: xs, generator =>
    let (record, generator) := make x generator
    let (records, generator) := generate make xs generator
    (record :: records, generator)

/-- What sample data depends on. -/
structure SampleOptions where
  count : Nat
  seed : UInt64
  today : Date
  start : Int64
  deriving DecidableEq

namespace Sample

/-- The default number of records in a table. -/
def defaultCount : Nat := 50

/-- Scores lie below this number. -/
def scoreLimit : Nat := 10000

/-- A player is active if a random fraction exceeds one fifth, as a double. -/
def activeBound : Nat := ((Decimal.mk 2 (-1)).toMagnitude?.getD .zero).units

/-- A text that ends with a number counted from one. -/
def numbered (text : String) (index : Nat) : Json := .string s!"{text}{index + 1}"

/-- A random score. -/
def score (generator : Generator) : Json × Generator :=
  let drawn := generator.random.below scoreLimit
  (.ofNat drawn.1, { generator with random := drawn.2 })

/-- The date of an entry that lies some days back. -/
def dated (today : Date) (days : Nat) : Json := .string (today.daysBefore days).text

/-- A player; each registered a day before the last. -/
def player (today : Date) (index : Nat) (generator : Generator) : Record × Generator :=
  let (points, generator) := score generator
  let share := generator.random.fraction
  { generator with random := share.2 }.record
    [("name", numbered "Player " index),
      ("email", .string s!"player{index + 1}@example.com"),
      ("registrationDate", dated today index),
      ("totalScore", points),
      ("isActive", .bool (activeBound < share.1.units))]

/-- A game; each came out thirty days before the last. -/
def game (today : Date) (index : Nat) (generator : Generator) : Record × Generator :=
  generator.record
    [("title", numbered "Game " index),
      ("description", numbered "Description for Game " index),
      ("releaseDate", dated today (index * 30))]

/-- What a score and an achievement refer to: their number, a player and a game. -/
structure Pairing where
  index : Nat
  playerId : String
  gameId : String

/-- A score; each was achieved ten days before the last. -/
def scored (today : Date) (pairing : Pairing) (generator : Generator) : Record × Generator :=
  let (points, generator) := score generator
  generator.record
    [("playerId", .string pairing.playerId), ("gameId", .string pairing.gameId),
      ("score", points), ("achievedDate", dated today (pairing.index * 10))]

/-- An achievement; each lies five days before the last. -/
def achieved (today : Date) (pairing : Pairing) (generator : Generator) : Record × Generator :=
  generator.record
    [("playerId", .string pairing.playerId), ("gameId", .string pairing.gameId),
      ("achievementTitle", numbered "Achievement " pairing.index),
      ("achievementDate", dated today (pairing.index * 5))]

/-- Ids are taken in turn, after the last from the first again. -/
def inTurn (ids : Array String) (index : Nat) : String := ids.getD (index % ids.size) ""

/-- What the entries of a number refer to, in the order of their numbers. -/
def pairings (count : Nat) (players games : List Record) : List Pairing :=
  let playerIds := (players.map (·.id)).toArray
  let gameIds := (games.map (·.id)).toArray
  (List.range count).map fun index => ⟨index, inTurn playerIds index, inTurn gameIds index⟩

end Sample

/-- Sample data for the built-in tables; no tables for a count of zero. -/
def sampleDataset (options : SampleOptions) : Dataset :=
  let numbers := List.range options.count
  let (players, generator) :=
    generate (Sample.player options.today) numbers ⟨⟨options.seed⟩, options.start⟩
  let (games, generator) := generate (Sample.game options.today) numbers generator
  let pairings := Sample.pairings options.count players games
  let (scores, generator) := generate (Sample.scored options.today) pairings generator
  let (achievements, _) := generate (Sample.achieved options.today) pairings generator
  if options.count = 0 then .empty
  else
    ⟨Dataset.currentVersion, .ofList [(Schema.players, players), (Schema.games, games),
      (Schema.scores, scores), (Schema.achievements, achievements)]⟩

end RecordQuery
