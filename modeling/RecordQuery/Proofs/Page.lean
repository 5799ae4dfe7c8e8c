/-
RecordQuery.Proofs.Page — where a cursor stands, and what one page holds.

A cursor is an id, looked up anew for every page. `StandsAt` says how many
records lie before it, and everything else about pages is said in these places:
a page reads the next `scanned` records (`PageAt`), and it can be resumed where
it ended, as long as no record but the last shares its id with an earlier one.

Main statements:
* `recordsBehind?_eq_some` — the records behind the first one with an id;
* `paginate_of_standsAt` — what a page holds, and that there is one;
* `PageAt.standsAt_next` — the next cursor stands where the page ended.
-/
import RecordQuery.Page
import Mathlib

namespace RecordQuery

variable {keep : Record → Bool} {records more rest : List Record} {cursor : Option String}
  {request : PageRequest} {page : Page} {place : Nat}

/-! ## Places in a table -/

/-- The first record with an id parts the table. -/
theorem recordsBehind?_eq_some {id : String} :
    recordsBehind? id records = some rest ↔
      ∃ before record, records = before ++ record :: rest ∧ record.id = id ∧
        ∀ other ∈ before, other.id ≠ id := by
  induction records with
  | nil => simp [recordsBehind?]
  | cons head tail ih =>
    simp only [recordsBehind?]
    split
    · rename_i hid
      constructor
      · intro h
        exact ⟨[], head, by simpa using h, hid, by simp⟩
      · rintro ⟨before, record, hsplit, hrecord, hbefore⟩
        cases before with
        | nil =>
          obtain ⟨-, rfl⟩ := List.cons.inj hsplit
          rfl
        | cons first _ =>
          obtain ⟨rfl, -⟩ := List.cons.inj hsplit
          exact absurd hid (hbefore head List.mem_cons_self)
    · rename_i hid
      rw [ih]
      constructor
      · rintro ⟨before, record, rfl, hrecord, hbefore⟩
        refine ⟨head :: before, record, rfl, hrecord, ?_⟩
        intro other hother
        rcases List.mem_cons.1 hother with rfl | hother
        · exact hid
        · exact hbefore other hother
      · rintro ⟨before, record, hsplit, hrecord, hbefore⟩
        cases before with
        | nil =>
          obtain ⟨rfl, -⟩ := List.cons.inj hsplit
          exact absurd hrecord hid
        | cons first before =>
          obtain ⟨rfl, rfl⟩ := List.cons.inj hsplit
          exact ⟨before, record, rfl, hrecord,
            fun other hother => hbefore other (List.mem_cons_of_mem _ hother)⟩

theorem recordsBehind?_eq_none {id : String} :
    recordsBehind? id records = none ↔ ∀ record ∈ records, record.id ≠ id := by
  induction records with
  | nil => simp [recordsBehind?]
  | cons head tail ih =>
    simp only [recordsBehind?, List.forall_mem_cons]
    split
    · rename_i hid
      simp [hid]
    · rename_i hid
      simp [hid, ih]

/-- The cursor stands at a place of the table: so many records lie before it. -/
structure StandsAt (cursor : Option String) (records : List Record) (place : Nat) : Prop where
  le_length : place ≤ records.length
  after : recordsAfter? cursor records = some (records.drop place)

/-- Without cursor a page starts at the first record. -/
theorem standsAt_none (records : List Record) : StandsAt none records 0 :=
  ⟨Nat.zero_le _, rfl⟩

/-- A cursor that is found stands at some place. -/
theorem exists_standsAt (h : recordsAfter? cursor records = some rest) :
    ∃ place, StandsAt cursor records place ∧ rest = records.drop place := by
  cases cursor with
  | none =>
    obtain rfl : records = rest := by simpa [recordsAfter?] using h
    exact ⟨0, standsAt_none records, rfl⟩
  | some id =>
    obtain ⟨before, record, rfl, -, -⟩ := recordsBehind?_eq_some.1 h
    have hdrop : (before ++ record :: rest).drop (before.length + 1) = rest := by simp
    refine ⟨before.length + 1, ⟨by simp, ?_⟩, hdrop.symm⟩
    rw [h, hdrop]

/-- Behind a record whose id does not occur before it. -/
theorem standsAt_id (hlt : place < records.length)
    (hfirst : records[place].id ∉ (records.take place).map Record.id) :
    StandsAt (some records[place].id) records (place + 1) := by
  refine ⟨hlt, recordsBehind?_eq_some.2 ⟨records.take place, records[place], ?_, rfl, ?_⟩⟩
  · rw [List.cons_getElem_drop_succ, List.take_append_drop]
  · intro other hother hid
    exact hfirst (List.mem_map.2 ⟨other, hother, hid⟩)

/-- Records that are added behind the table leave a cursor where it is. -/
theorem StandsAt.append (h : StandsAt cursor records place) (more : List Record) :
    StandsAt cursor (records ++ more) place := by
  refine ⟨by have := h.le_length; rw [List.length_append]; omega, ?_⟩
  rw [List.drop_append_of_le_length h.le_length]
  have hafter := h.after
  cases cursor with
  | none =>
    have hzero : records = records.drop place := by simpa [recordsAfter?] using hafter
    simp [recordsAfter?, ← hzero]
  | some id =>
    obtain ⟨before, record, hsplit, hid, hbefore⟩ := recordsBehind?_eq_some.1 hafter
    refine recordsBehind?_eq_some.2 ⟨before, record, ?_, hid, hbefore⟩
    conv_lhs => rw [hsplit]
    simp

/-- An id that occurs among the first records stands at a place among them. -/
theorem exists_standsAt_of_mem {id : String} {count : Nat}
    (h : id ∈ (records.take count).map Record.id) :
    ∃ place ≤ count, StandsAt (some id) records place := by
  obtain ⟨record, hrecord, hid⟩ := List.mem_map.1 h
  cases hbehind : recordsBehind? id (records.take count) with
  | none => exact absurd hid (recordsBehind?_eq_none.1 hbehind record hrecord)
  | some rest =>
    obtain ⟨place, hstands, -⟩ := exists_standsAt (show recordsAfter? (some id) _ = _ from hbehind)
    refine ⟨place, Nat.le_trans hstands.le_length (List.length_take_le ..), ?_⟩
    have happend := hstands.append (records.drop count)
    rwa [List.take_append_drop] at happend

/-- The records behind a cursor: all of them without cursor, else those behind a record with its
id. -/
inductive Behind : Option String → List Record → List Record → Prop
  | start {records : List Record} : Behind none records records
  | record {before rest : List Record} (record : Record) :
      Behind (some record.id) (before ++ record :: rest) rest

/-- What lies behind a cursor that stands somewhere. -/
theorem StandsAt.behind (h : StandsAt cursor records place) :
    Behind cursor records (records.drop place) := by
  have hafter := h.after
  cases cursor with
  | none =>
    have hall : records = records.drop place := by simpa [recordsAfter?] using hafter
    rw [← hall]
    exact .start
  | some id =>
    obtain ⟨before, record, hsplit, rfl, -⟩ := recordsBehind?_eq_some.1 hafter
    generalize records.drop place = rest at hsplit
    subst hsplit
    exact .record record

/-! ## What is read for a page -/

/-- A page reads on from where it starts and skips nothing. -/
theorem recordsRead_prefix (keep : Record → Bool) (room : Nat) (bound : Option Nat)
    (records : List Record) : recordsRead keep room bound records <+: records := by
  fun_induction recordsRead keep room bound records with
  | case1 => exact List.nil_prefix
  | case2 => exact List.nil_prefix
  | case3 => exact List.nil_prefix
  | case4 room bound record records _ ih => exact (List.prefix_cons_inj record).2 ih

/-- Where there is room, no bound of zero and a record left, one is read. -/
theorem recordsRead_ne_nil {room : Nat} {bound : Option Nat} (hroom : 0 < room)
    (hbound : bound ≠ some 0) (hrecords : records ≠ []) :
    recordsRead keep room bound records ≠ [] := by
  fun_cases recordsRead keep room bound records with
  | case1 => exact absurd rfl hrecords
  | case2 => exact absurd hroom (Nat.lt_irrefl 0)
  | case3 => exact absurd rfl hbound
  | case4 => exact List.cons_ne_nil _ _

/-- There is room for all matches that are read. -/
theorem length_filter_recordsRead_le (keep : Record → Bool) (room : Nat) (bound : Option Nat)
    (records : List Record) : ((recordsRead keep room bound records).filter keep).length ≤ room := by
  fun_induction recordsRead keep room bound records with
  | case1 => exact Nat.zero_le _
  | case2 => exact Nat.zero_le _
  | case3 => exact Nat.zero_le _
  | case4 room bound record records _ ih =>
    by_cases hkeep : keep record = true
    · simp only [hkeep, if_true] at ih
      simpa [hkeep] using ih
    · simp only [hkeep] at ih
      simpa [hkeep] using ih

/-- With room for every record and without bound the whole rest is read. -/
theorem recordsRead_eq_self {room : Nat} (hroom : records.length ≤ room) :
    recordsRead keep room none records = records := by
  induction records generalizing room with
  | nil => simp [recordsRead]
  | cons record records ih =>
    cases room with
    | zero => simp at hroom
    | succ room =>
      rw [List.length_cons] at hroom
      simp only [recordsRead, Option.map_none]
      rw [ih (by split <;> omega)]

/-! ## One page -/

/-- What a page holds that is asked for with a cursor at `place`: the matches among the next
`scanned` records. It is the last one if these reach the end of the table; otherwise its cursor is
the id of the last record that was read, or the old one if none was. -/
structure PageAt (keep : Record → Bool) (records : List Record) (place : Nat)
    (request : PageRequest) (page : Page) : Prop where
  le_length : place + page.scanned ≤ records.length
  records_eq : page.records = ((records.drop place).take page.scanned).filter keep
  length_le : page.records.length ≤ request.size
  isDone_iff : page.isDone = true ↔ place + page.scanned = records.length
  next_of_isDone : page.isDone = true → page.next = none
  next_of_open : page.isDone = false → page.next =
    (((records.drop place).take page.scanned).getLast?.map Record.id).or request.cursor
  progress : 0 < request.size → request.maxScan ≠ some 0 → place < records.length →
    0 < page.scanned
  whole : request.maxScan = none → records.length - place ≤ request.size →
    place + page.scanned = records.length

/-- A cursor that stands somewhere gives a page. -/
theorem paginate_of_standsAt (keep : Record → Bool)
    (h : StandsAt request.cursor records place) :
    ∃ page, paginate keep request records = .ok page ∧ PageAt keep records place request page := by
  have hprefix := recordsRead_prefix keep request.size request.maxScan (records.drop place)
  have htake := List.prefix_iff_eq_take.1 hprefix
  have hread := hprefix.length_le
  have hle := h.le_length
  simp only [paginate, h.after]
  generalize hr : recordsRead keep request.size request.maxScan (records.drop place) = read at *
  rw [List.length_drop] at hread
  refine ⟨_, rfl, ?_⟩
  constructor
  case le_length => simp only; omega
  case records_eq => rw [← htake]
  case length_le => exact hr ▸ length_filter_recordsRead_le ..
  case isDone_iff => simp only [List.length_drop, decide_eq_true_eq]; omega
  case next_of_isDone =>
    intro hdone
    exact if_pos (by simpa using hdone)
  case next_of_open =>
    intro hopen
    rw [← htake]
    exact if_neg (by simpa using hopen)
  case progress =>
    intro hsize hmaxScan hlt
    have hrest : records.drop place ≠ [] := by simpa using hlt
    exact List.length_pos_iff.2 (hr ▸ recordsRead_ne_nil hsize hmaxScan hrest)
  case whole =>
    intro hmaxScan hroom
    rw [hmaxScan, recordsRead_eq_self (by rwa [List.length_drop])] at hr
    simp only [← hr, List.length_drop]
    omega

/-- A cursor that stands nowhere gives none. -/
theorem paginate_of_recordsAfter?_eq_none (keep : Record → Bool)
    (h : recordsAfter? request.cursor records = none) :
    paginate keep request records = .error (.invalidCursor (request.cursor.getD "")) := by
  simp [paginate, h]

/-- The ids of all records but the last occur once among them, so every cursor that leads to a
further page names one place. -/
def Resumable (records : List Record) : Prop := (records.dropLast.map Record.id).Nodup

instance : Decidable (Resumable records) :=
  inferInstanceAs (Decidable (records.dropLast.map Record.id).Nodup)

theorem resumable_of_nodup (h : (records.map Record.id).Nodup) : Resumable records :=
  h.sublist ((List.dropLast_sublist records).map Record.id)

/-- A table is resumable exactly if no record before the last has the id of an earlier one. -/
theorem resumable_iff : Resumable records ↔ ∀ place (hlt : place + 1 < records.length),
    records[place].id ∉ (records.take place).map Record.id := by
  simp only [Resumable, List.nodup_iff_pairwise_ne, List.pairwise_iff_getElem, List.length_map,
    List.length_dropLast, List.getElem_map, List.getElem_dropLast]
  constructor
  · intro h place hlt hmem
    obtain ⟨record, hrecord, hid⟩ := List.mem_map.1 hmem
    obtain ⟨other, hother, rfl⟩ := List.mem_take_iff_getElem.1 hrecord
    exact h other place (by omega) (by omega) (by omega) hid
  · intro h other place hother hplace hlt hid
    refine h place (by omega) (List.mem_map.2 ⟨records[other], ?_, hid⟩)
    exact List.mem_take_iff_getElem.2 ⟨other, by omega, rfl⟩

/-- A page that is not the last ends before the table does. -/
theorem PageAt.lt_length (h : PageAt keep records place request page)
    (hopen : page.isDone = false) : place + page.scanned < records.length := by
  refine Nat.lt_of_le_of_ne h.le_length ?_
  intro heq
  simp [h.isDone_iff.2 heq] at hopen

/-- The last record that is read for a page. -/
theorem getLast?_take_drop {count : Nat} (hlt : place + count < records.length) :
    ((records.drop place).take (count + 1)).getLast? = some records[place + count] := by
  rw [List.getLast?_eq_getElem?, List.length_take, List.length_drop,
    List.getElem?_take_of_lt (by omega), List.getElem?_drop, List.getElem?_eq_getElem (by omega)]
  congr 2
  omega

/-- The cursor of a page for which something is read is the id of the last record read. -/
theorem PageAt.next_eq_id {count : Nat} (h : PageAt keep records place request page)
    (hopen : page.isDone = false) (hscanned : page.scanned = count + 1) :
    ∃ hlt : place + count + 1 < records.length, page.next = some records[place + count].id := by
  have hlt : place + count + 1 < records.length := by
    have := h.lt_length hopen
    omega
  refine ⟨hlt, ?_⟩
  rw [h.next_of_open hopen, hscanned, getLast?_take_drop (by omega)]
  rfl

/-- The cursor of a page stands where the page ended. -/
theorem PageAt.standsAt_next (h : PageAt keep records place request page)
    (hstands : StandsAt request.cursor records place) (hids : Resumable records)
    (hopen : page.isDone = false) : StandsAt page.next records (place + page.scanned) := by
  cases hscanned : page.scanned with
  | zero =>
    rw [h.next_of_open hopen, hscanned]
    simpa using hstands
  | succ count =>
    obtain ⟨hlt, hnext⟩ := h.next_eq_id hopen hscanned
    rw [hnext]
    exact standsAt_id (by omega) (resumable_iff.1 hids _ hlt)

end RecordQuery
