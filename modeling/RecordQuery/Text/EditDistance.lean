/-
RecordQuery.Text.EditDistance — how far one word is from another.

The distance is the least number of insertions, deletions and substitutions of
single characters that turn one word into the other. It is computed row by row:
a row lists the distances of one suffix of the first word to every suffix of
the second, longest first.

Main definitions:
* `distanceRow`, `editDistance`.
-/

namespace RecordQuery

/-- The distances of `c :: cs` to every suffix of the word, from those of `cs`. -/
def extendRow (c : Char) : (word : List Char) → (row : List Nat) → List Nat
  | [], row => [row.headD 0 + 1]
  | d :: word, row =>
    let shorter := extendRow c word row.tail
    let substituted := row.tail.headD 0 + if c = d then 0 else 1
    min substituted (min (row.headD 0 + 1) (shorter.headD 0 + 1)) :: shorter

/-- The distances of the empty word to every suffix of a word. -/
def lengthRow : (word : List Char) → List Nat
  | [] => [0]
  | d :: word => (d :: word).length :: lengthRow word

/-- The distances of a word to every suffix of another. -/
def distanceRow (cs word : List Char) : List Nat :=
  cs.foldr (fun c row => extendRow c word row) (lengthRow word)

/-- The least number of insertions, deletions and substitutions between two words. -/
def editDistance (cs word : List Char) : Nat := (distanceRow cs word).headD 0

end RecordQuery
