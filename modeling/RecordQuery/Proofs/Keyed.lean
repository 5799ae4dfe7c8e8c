/-
RecordQuery.Proofs.Keyed — a map is rebuilt from its entries.

A reader meets the entries of a written map in order of their keys and puts one
after the other into a map that was empty at first. Each key is greater than
those before it, so each entry goes to the end, and the map that comes out has
the entries that were met, with what the reader made of their values.

Entries with keys of their own need not come in order: the map that they are put
into has them all, in another order, and a lookup finds each.

Main statements:
* `putEntry_of_lt` — an entry with the greatest key goes to the end;
* `foldl_putEntry`, `Keyed.foldl_insert` — the rebuilt list and the rebuilt map;
* `Keyed.keys_ofList_perm`, `Keyed.get?_ofList` — the map of entries with keys of their own.
-/
import RecordQuery.Keyed

namespace RecordQuery

variable {α β : Type}

instance (entries : List (String × α)) : Decidable (Increasing entries) :=
  inferInstanceAs (Decidable (entries.Pairwise fun a b => a.1 < b.1))

theorem map_eq_self_iff (f : α → α) (xs : List α) : xs.map f = xs ↔ ∀ x ∈ xs, f x = x := by
  have h := List.map_inj_left (l := xs) (f := f) (g := id)
  rwa [List.map_id] at h

theorem mem_of_lookup {key : String} {value : α} {entries : List (String × α)}
    (h : entries.lookup key = some value) : (key, value) ∈ entries := by
  obtain ⟨front, back, rfl, _⟩ := List.lookup_eq_some_iff.1 h
  simp

theorem putEntry_nil (key : String) (value : α) : putEntry key value [] = [(key, value)] := rfl

/-- An entry with a key less than the first goes before it. -/
theorem putEntry_before {key first : String} {value other : α} {rest : List (String × α)}
    (h : key < first) :
    putEntry key value ((first, other) :: rest) = (key, value) :: (first, other) :: rest :=
  if_pos h

/-- An entry with a key greater than the first goes behind it. -/
theorem putEntry_behind {key first : String} {value other : α} {rest : List (String × α)}
    (h : first < key) :
    putEntry key value ((first, other) :: rest) = (first, other) :: putEntry key value rest := by
  rw [putEntry, if_neg (String.lt_asymm h), if_pos h]

/-- An entry with a key greater than all others goes to the end. -/
theorem putEntry_of_lt {key : String} {value : α} {entries : List (String × α)}
    (h : ∀ entry ∈ entries, entry.1 < key) :
    putEntry key value entries = entries ++ [(key, value)] := by
  induction entries with
  | nil => rfl
  | cons entry entries ih =>
    rw [putEntry_behind (h entry (List.mem_cons_self ..)),
      ih fun other hother => h other (List.mem_cons_of_mem _ hother)]
    rfl

/-- An entry with a new key comes to the others. -/
theorem putEntry_perm {key : String} {value : α} {entries : List (String × α)}
    (h : ∀ entry ∈ entries, entry.1 ≠ key) :
    (putEntry key value entries).Perm ((key, value) :: entries) := by
  induction entries with
  | nil => rfl
  | cons head rest ih =>
    have hhead := h head (List.mem_cons_self ..)
    have hrest := ih fun entry hentry => h entry (List.mem_cons_of_mem _ hentry)
    obtain ⟨first, other⟩ := head
    by_cases hlt : key < first
    · rw [putEntry_before hlt]
    · have hgt : first < key :=
        String.not_le.1 fun hle => hhead (String.le_antisymm (String.not_lt.1 hlt) hle)
      rw [putEntry_behind hgt]
      exact (hrest.cons _).trans (.swap ..)

/-- Whether keys increase is a matter of the keys. -/
theorem increasing_iff {entries : List (String × α)} :
    Increasing entries ↔ (entries.map (·.1)).Pairwise (· < ·) :=
  List.pairwise_map.symm

/-- The entry with another value under its key. -/
def mapEntry (f : α → β) (entry : String × α) : String × β := (entry.1, f entry.2)

theorem mapEntry_id : mapEntry (id : α → α) = id := rfl

theorem increasing_map (f : α → β) {entries : List (String × α)} :
    Increasing (entries.map (mapEntry f)) ↔ Increasing entries :=
  List.pairwise_map

/-- Entries in order of their keys are put one behind the other. -/
theorem foldl_putEntry (f : α → β) (entries : List (String × α)) (front : List (String × β))
    (h : Increasing (front ++ entries.map (mapEntry f))) :
    entries.foldl (fun sofar entry => putEntry entry.1 (f entry.2) sofar) front =
      front ++ entries.map (mapEntry f) := by
  induction entries generalizing front with
  | nil => simp
  | cons entry entries ih =>
    have hlast : ∀ other ∈ front, other.1 < entry.1 := fun other hother =>
      (List.pairwise_append.1 h).2.2 other hother (mapEntry f entry) (List.mem_cons_self ..)
    have hsplit : front ++ (entry :: entries).map (mapEntry f) =
        (front ++ [mapEntry f entry]) ++ entries.map (mapEntry f) := by simp
    rw [List.foldl_cons, putEntry_of_lt hlast, hsplit]
    exact ih _ (hsplit ▸ h)

/-- Entries with keys of their own are all there in the end. -/
theorem foldl_putEntry_perm (entries front : List (String × α))
    (h : ((front ++ entries).map (·.1)).Nodup) :
    (entries.foldl (fun sofar entry => putEntry entry.1 entry.2 sofar) front).Perm
      (front ++ entries) := by
  induction entries generalizing front with
  | nil => simp
  | cons entry entries ih =>
    have hmiddle : (front ++ entry :: entries).Perm (entry :: front ++ entries) := List.perm_middle
    have hnew : ∀ other ∈ front, other.1 ≠ entry.1 := fun other hother heq =>
      (List.nodup_cons.1 ((hmiddle.map _).nodup h)).1
        (heq ▸ List.mem_map_of_mem (List.mem_append_left entries hother))
    have hput : (putEntry entry.1 entry.2 front ++ entries).Perm (front ++ entry :: entries) :=
      ((putEntry_perm hnew).append_right entries).trans hmiddle.symm
    rw [List.foldl_cons]
    exact (ih _ ((hput.map _).nodup_iff.2 h)).trans hput

namespace Keyed

/-- The map with other values under the same keys. -/
def mapValues (map : Keyed α) (f : α → β) : Keyed β :=
  ⟨map.entries.map (mapEntry f), (increasing_map f).2 map.increasing⟩

theorem entries_foldl_insert (f : α → β) (entries : List (String × α)) (map : Keyed β) :
    (entries.foldl (fun sofar entry => sofar.insert entry.1 (f entry.2)) map).entries =
      entries.foldl (fun sofar entry => putEntry entry.1 (f entry.2) sofar) map.entries := by
  induction entries generalizing map with
  | nil => rfl
  | cons entry entries ih => exact ih _

/-- A map is rebuilt from its entries. -/
theorem foldl_insert (map : Keyed α) (f : α → β) :
    map.entries.foldl (fun sofar entry => sofar.insert entry.1 (f entry.2)) .empty =
      map.mapValues f := by
  have hincreasing : Increasing ([] ++ map.entries.map (mapEntry f)) :=
    (increasing_map f).2 map.increasing
  refine ext ?_
  rw [entries_foldl_insert]
  exact foldl_putEntry f map.entries [] hincreasing

theorem mapValues_eq_self_iff (map : Keyed α) (f : α → α) :
    map.mapValues f = map ↔ ∀ entry ∈ map.entries, f entry.2 = entry.2 := by
  constructor
  · intro h entry hentry
    have hentries : map.entries.map (mapEntry f) = map.entries := congrArg entries h
    exact congrArg Prod.snd ((map_eq_self_iff ..).1 hentries entry hentry)
  · intro h
    exact ext ((map_eq_self_iff ..).2 fun entry hentry => Prod.ext rfl (h entry hentry))

/-! ### Entries with keys of their own -/

/-- A map has just the values that its entries give. -/
theorem get?_eq_some_iff {map : Keyed α} {key : String} {value : α} :
    map.get? key = some value ↔ (key, value) ∈ map.entries := by
  refine ⟨mem_of_lookup, fun h => ?_⟩
  obtain ⟨front, back, hsplit⟩ := List.append_of_mem h
  have hincreasing : Increasing (front ++ (key, value) :: back) := hsplit ▸ map.increasing
  refine List.lookup_eq_some_iff.2 ⟨front, back, hsplit, fun entry hentry => ?_⟩
  have hlt := (List.pairwise_append.1 hincreasing).2.2 entry hentry _ (List.mem_cons_self ..)
  exact bne_iff_ne.2 (String.ne_of_lt hlt).symm

variable {entries : List (String × α)}

theorem entries_ofList_perm (h : (entries.map (·.1)).Nodup) :
    (ofList entries).entries.Perm entries := by
  have hfold : (ofList entries).entries = _ := entries_foldl_insert id entries .empty
  exact hfold ▸ foldl_putEntry_perm entries [] h

theorem keys_ofList_perm (h : (entries.map (·.1)).Nodup) :
    (ofList entries).keys.Perm (entries.map (·.1)) :=
  (entries_ofList_perm h).map _

theorem get?_ofList (h : (entries.map (·.1)).Nodup) {key : String} {value : α}
    (hmem : (key, value) ∈ entries) : (ofList entries).get? key = some value :=
  get?_eq_some_iff.2 ((entries_ofList_perm h).mem_iff.2 hmem)

end Keyed

end RecordQuery
