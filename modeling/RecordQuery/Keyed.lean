/-
RecordQuery.Keyed — finite maps from text keys, in order of keys.

Tables of a dataset and fields of a record are listed in increasing order of
their keys, compared character by character by code point, and a key occurs
once. `putEntry` keeps a list of entries in that form; `Keyed` is a list of
entries together with the proof that it has it, so two maps with the same
entries are equal.

Main statements:
* `increasing_putEntry` — insertion keeps the order;
* `lookup_putEntry` — a lookup finds what was put last under its key.
-/

namespace RecordQuery

variable {α : Type}

/-- The keys increase strictly from entry to entry. -/
def Increasing (entries : List (String × α)) : Prop :=
  entries.Pairwise fun a b => a.1 < b.1

/-- The entries with `value` under `key`, in the place of an older value or in order. -/
def putEntry (key : String) (value : α) : List (String × α) → List (String × α)
  | [] => [(key, value)]
  | entry :: rest =>
    if key < entry.1 then (key, value) :: entry :: rest
    else if entry.1 < key then entry :: putEntry key value rest
    else (key, value) :: rest

/-- The entries of a list in order of keys; of two with one key the later counts. -/
def collectEntries (entries : List (String × α)) : List (String × α) :=
  entries.foldl (fun sofar entry => putEntry entry.1 entry.2 sofar) []

/-! ## Insertion keeps the order -/

theorem mem_putEntry {key : String} {value : α} {entries : List (String × α)}
    {entry : String × α} (h : entry ∈ putEntry key value entries) :
    entry = (key, value) ∨ entry ∈ entries := by
  induction entries with
  | nil => simp [putEntry] at h; exact .inl h
  | cons head rest ih =>
    simp only [putEntry] at h
    split at h
    · rcases List.mem_cons.1 h with rfl | h
      · exact .inl rfl
      · exact .inr h
    · split at h
      · rcases List.mem_cons.1 h with rfl | h
        · exact .inr (List.mem_cons_self ..)
        · exact (ih h).imp_right (List.mem_cons_of_mem _)
      · rcases List.mem_cons.1 h with rfl | h
        · exact .inl rfl
        · exact .inr (List.mem_cons_of_mem _ h)

theorem increasing_putEntry (key : String) (value : α) {entries : List (String × α)}
    (h : Increasing entries) : Increasing (putEntry key value entries) := by
  induction entries with
  | nil => simp [putEntry, Increasing]
  | cons head rest ih =>
    have ⟨hhead, hrest⟩ := List.pairwise_cons.1 h
    simp only [putEntry]
    split
    · rename_i hlt
      refine List.pairwise_cons.2 ⟨fun entry hentry => ?_, h⟩
      rcases List.mem_cons.1 hentry with rfl | hentry
      · exact hlt
      · exact String.lt_trans hlt (hhead entry hentry)
    · split
      · rename_i hlt
        refine List.pairwise_cons.2 ⟨fun entry hentry => ?_, ih hrest⟩
        rcases mem_putEntry hentry with rfl | hentry
        · exact hlt
        · exact hhead entry hentry
      · rename_i hle hge
        have heq : head.1 = key :=
          String.le_antisymm (String.not_lt.1 hle) (String.not_lt.1 hge)
        exact List.pairwise_cons.2 ⟨fun entry hentry => heq ▸ hhead entry hentry, hrest⟩

/-- A lookup finds what was put last under its key. -/
theorem lookup_putEntry (key other : String) (value : α) (entries : List (String × α)) :
    (putEntry key value entries).lookup other
      = if other = key then some value else entries.lookup other := by
  induction entries with
  | nil =>
    by_cases h : other = key
    · subst h; simp [putEntry]
    · have : (other == key) = false := by simpa using h
      simp [putEntry, List.lookup_cons, h, this]
  | cons head rest ih =>
    obtain ⟨k, v⟩ := head
    simp only [putEntry]
    split
    · by_cases h : other = key
      · subst h; simp
      · have : (other == key) = false := by simpa using h
        simp [List.lookup_cons, h, this]
    · split
      · rename_i hlt
        by_cases h : other = k
        · subst h
          have : other ≠ key := fun heq => String.lt_irrefl _ (heq ▸ hlt)
          simp [this]
        · have : (other == k) = false := by simpa using h
          simp [List.lookup_cons, this, ih]
      · rename_i hle hge
        have heq : k = key :=
          String.le_antisymm (String.not_lt.1 hle) (String.not_lt.1 hge)
        subst heq
        by_cases h : other = k
        · subst h; simp
        · have : (other == k) = false := by simpa using h
          simp [List.lookup_cons, h, this]

/-! ## Maps -/

/-- A finite map from text keys to values. -/
structure Keyed (α : Type) where
  entries : List (String × α)
  increasing : Increasing entries

namespace Keyed

@[ext] theorem ext {x y : Keyed α} (h : x.entries = y.entries) : x = y := by
  cases x; cases y; cases h; rfl

instance [DecidableEq α] : DecidableEq (Keyed α) := fun x y =>
  decidable_of_iff (x.entries = y.entries) ⟨ext, fun h => h ▸ rfl⟩

/-- The map without entries. -/
def empty : Keyed α := ⟨[], List.Pairwise.nil⟩

instance : Inhabited (Keyed α) := ⟨empty⟩

/-- The value under a key. -/
def get? (map : Keyed α) (key : String) : Option α := map.entries.lookup key

/-- The map with `value` under `key`. -/
def insert (map : Keyed α) (key : String) (value : α) : Keyed α :=
  ⟨putEntry key value map.entries, increasing_putEntry key value map.increasing⟩

/-- The map of a list of entries; of two with one key the later counts. -/
def ofList (entries : List (String × α)) : Keyed α :=
  entries.foldl (fun map entry => map.insert entry.1 entry.2) empty

/-- The keys in order. -/
def keys (map : Keyed α) : List String := map.entries.map (·.1)

@[simp] theorem get?_empty (key : String) : (empty : Keyed α).get? key = none := rfl

theorem get?_insert (map : Keyed α) (key other : String) (value : α) :
    (map.insert key value).get? other = if other = key then some value else map.get? other :=
  lookup_putEntry key other value map.entries

end Keyed

end RecordQuery
