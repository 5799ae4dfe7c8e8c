/-
RecordQuery.Schema — the built-in tables.

Four tables are known in advance, with the fields that an editor offers for
them. Other tables may be stored and queried as well; they have no catalog.
-/
import RecordQuery.Catalog.Basic

namespace RecordQuery.Schema

def players : String := "players"
def games : String := "games"
def scores : String := "scores"
def achievements : String := "achievements"

/-- The built-in tables in the order in which they are filled. -/
def tables : List String := [players, games, scores, achievements]

/-- A field with a label. -/
def labelled (name label : String) (kind : FieldKind) : Field := ⟨name, some label, kind, none⟩

/-- A field with a label that is edited by the input for its kind. -/
def edited (name label : String) (kind : FieldKind) : Field :=
  ⟨name, some label, kind, some kind.name⟩

/-- The fields of players. -/
def playerFields : Catalog :=
  ⟨[labelled "name" "Name" .text, labelled "email" "Email" .text,
    edited "registrationDate" "Registration Date" .date,
    edited "totalScore" "Total Score" .number, labelled "isActive" "Is Active" .boolean]⟩

/-- The fields of games. -/
def gameFields : Catalog :=
  ⟨[labelled "title" "Title" .text, labelled "description" "Description" .text,
    edited "releaseDate" "Release Date" .date]⟩

/-- The fields of scores. -/
def scoreFields : Catalog :=
  ⟨[labelled "playerId" "Player" .text, labelled "gameId" "Game" .text,
    edited "score" "Score" .number, edited "achievedDate" "Achieved Date" .date]⟩

/-- The fields of achievements. -/
def achievementFields : Catalog :=
  ⟨[labelled "playerId" "Player" .text, labelled "gameId" "Game" .text,
    labelled "achievementTitle" "Achievement" .text,
    edited "achievementDate" "Achievement Date" .date]⟩

/-- The catalog of a built-in table. -/
def catalogOf? (table : String) : Option Catalog :=
  if table = players then some playerFields
  else if table = games then some gameFields
  else if table = scores then some scoreFields
  else if table = achievements then some achievementFields
  else none

/-- What is said of a table that is not built in. -/
def unknownTableMessage (table : String) : String :=
  "unknown table '" ++ table ++ "'. Known tables: " ++ ", ".intercalate tables

end RecordQuery.Schema
