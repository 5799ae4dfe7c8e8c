/-
RecordQuery.Proofs.Walk — a walk through a table that grows meanwhile.

A walk fetches page after page of one table, each with the cursor of the page
before and with its own size and bound, until a page is the last. Between two
requests records with new ids may be added. The only memory of the walk is an
id; the invariant (`Walk.Exact`) is that this id stands behind exactly as many
records as were read so far.

Main statements:
* `Walk.Exact.fetch`, `Walk.Exact.insert` — what one step keeps;
* `Walk.Reachable.exact` — what every walk keeps;
* `Walk.fetch_visits_each_match_once` — no request fails, and the pages so far
  hold each match among the records so far once, in table order.
-/
import RecordQuery.Proofs.Page

namespace RecordQuery

/-- A walk through a table: the dataset as it is now, and the pages that were fetched so far. -/
structure Walk where
  dataset : Dataset
  pages : List Page

namespace Walk

/-- The records of the table as it is now. -/
def records (walk : Walk) (table : String) : List Record := (walk.dataset.table? table).getD []

/-- The cursor of the page before; none for the first page. -/
def cursor (walk : Walk) : Option String := walk.pages.getLast?.bind Page.next

/-- Some page was the last one. -/
def isOver (walk : Walk) : Bool := walk.pages.any Page.isDone

/-- The records of all pages, one page after the other. -/
def found (walk : Walk) : List Record := walk.pages.flatMap Page.records

/-- How many records were read for all pages. -/
def scanned (walk : Walk) : Nat := (walk.pages.map Page.scanned).sum

/-- The next page. -/
def fetch (keep : Record → Bool) (table : String) (walk : Walk) (size : Nat)
    (maxScan : Option Nat) : Except PageError Page :=
  paginate keep ⟨size, walk.cursor, maxScan⟩ (walk.records table)

/-- The walk with one more page. -/
def after (walk : Walk) (page : Page) : Walk := { walk with pages := walk.pages ++ [page] }

/-- The walk with one more record in some table. -/
def insert (walk : Walk) (table : String) (record : Record) : Walk :=
  { walk with dataset := walk.dataset.insert table record }

/-- The walks through `table` that start from `dataset`: requests, as long as no page is the last,
and between them records of other tables, or of this one with ids that it does not have yet. -/
inductive Reachable (keep : Record → Bool) (table : String) (dataset : Dataset) : Walk → Prop
  | start : Reachable keep table dataset ⟨dataset, []⟩
  | fetch {walk : Walk} {page : Page} (size : Nat) (maxScan : Option Nat)
      (before : Reachable keep table dataset walk) (isOpen : walk.isOver = false)
      (fetched : walk.fetch keep table size maxScan = .ok page) :
      Reachable keep table dataset (walk.after page)
  | insert {walk : Walk} (other : String) (record : Record)
      (before : Reachable keep table dataset walk)
      (isNew : other = table → record.id ∉ (walk.records table).map Record.id) :
      Reachable keep table dataset (walk.insert other record)

/-- The pages hold the matches among the records that were read, and the cursor stands behind
these. -/
structure Exact (keep : Record → Bool) (table : String) (walk : Walk) : Prop where
  distinct : ((walk.records table).map Record.id).Nodup
  le_length : walk.scanned ≤ (walk.records table).length
  found_eq : walk.found = ((walk.records table).take walk.scanned).filter keep
  standsAt : walk.isOver = false → StandsAt walk.cursor (walk.records table) walk.scanned

variable {keep : Record → Bool} {table : String} {dataset : Dataset} {walk : Walk} {page : Page}

/-! ## What a step changes -/

@[simp] theorem records_after (walk : Walk) (page : Page) :
    (walk.after page).records = walk.records := rfl

@[simp] theorem cursor_after (walk : Walk) (page : Page) : (walk.after page).cursor = page.next := by
  simp [cursor, after]

@[simp] theorem isOver_after (walk : Walk) (page : Page) :
    (walk.after page).isOver = (walk.isOver || page.isDone) := by
  simp [isOver, after]

@[simp] theorem found_after (walk : Walk) (page : Page) :
    (walk.after page).found = walk.found ++ page.records := by
  simp [found, after]

@[simp] theorem scanned_after (walk : Walk) (page : Page) :
    (walk.after page).scanned = walk.scanned + page.scanned := by
  simp [scanned, after]

@[simp] theorem scanned_insert (walk : Walk) (other : String) (record : Record) :
    (walk.insert other record).scanned = walk.scanned := rfl

theorem records_insert (walk : Walk) (other : String) (record : Record) :
    (walk.insert other record).records table =
      walk.records table ++ if other = table then [record] else [] := by
  simp only [records, insert, Dataset.table?_insert]
  by_cases h : other = table
  · simp [h]
  · have h' : table ≠ other := fun heq => h heq.symm
    simp [h, h']

/-! ## What a step keeps -/

theorem exact_start (hids : (((dataset.table? table).getD []).map Record.id).Nodup) :
    Exact keep table ⟨dataset, []⟩ where
  distinct := hids
  le_length := Nat.zero_le _
  found_eq := rfl
  standsAt := fun _ => standsAt_none _

/-- A request of an open walk gives the page that starts where the walk is. -/
theorem Exact.exists_page (h : Exact keep table walk) (isOpen : walk.isOver = false) (size : Nat)
    (maxScan : Option Nat) :
    ∃ page, walk.fetch keep table size maxScan = .ok page ∧
      PageAt keep (walk.records table) walk.scanned ⟨size, walk.cursor, maxScan⟩ page :=
  paginate_of_standsAt keep (h.standsAt isOpen)

/-- A further page keeps the pages exact. -/
theorem Exact.fetch {size : Nat} {maxScan : Option Nat} (h : Exact keep table walk)
    (isOpen : walk.isOver = false)
    (hpage : PageAt keep (walk.records table) walk.scanned ⟨size, walk.cursor, maxScan⟩ page) :
    Exact keep table (walk.after page) where
  distinct := h.distinct
  le_length := by simpa using hpage.le_length
  found_eq := by
    rw [found_after, scanned_after, records_after, h.found_eq, hpage.records_eq, List.take_add,
      List.filter_append]
  standsAt := by
    intro hover
    simp only [isOver_after, Bool.or_eq_false_iff] at hover
    simpa using hpage.standsAt_next (h.standsAt isOpen) (resumable_of_nodup h.distinct) hover.2

/-- A new record keeps the pages exact: it comes behind all that were read. -/
theorem Exact.insert {other : String} {record : Record} (h : Exact keep table walk)
    (isNew : other = table → record.id ∉ (walk.records table).map Record.id) :
    Exact keep table (walk.insert other record) := by
  have hle := h.le_length
  constructor
  case distinct =>
    rw [records_insert, List.map_append]
    refine List.Nodup.append h.distinct (by split <;> simp) ?_
    intro id hid hmem
    split at hmem
    · rename_i hother
      obtain rfl : id = record.id := by simpa using hmem
      exact isNew hother hid
    · simp at hmem
  case le_length =>
    rw [records_insert, List.length_append]
    exact Nat.le_add_right_of_le hle
  case found_eq =>
    rw [records_insert, scanned_insert, List.take_append_of_le_length hle]
    exact h.found_eq
  case standsAt =>
    intro hopen
    rw [records_insert]
    exact (h.standsAt hopen).append _

/-- Every walk through a table whose ids are distinct is exact. -/
theorem Reachable.exact (hids : (((dataset.table? table).getD []).map Record.id).Nodup)
    (h : Reachable keep table dataset walk) : Exact keep table walk := by
  induction h with
  | start => exact exact_start hids
  | @fetch walk page size maxScan _ isOpen fetched ih =>
    obtain ⟨other, hother, hpage⟩ := ih.exists_page isOpen size maxScan
    obtain rfl : page = other := Except.ok.inj (fetched.symm.trans hother)
    exact ih.fetch isOpen hpage
  | insert _ _ _ isNew ih => exact ih.insert isNew

/-! ## What a walk finds -/

/-- A request of an open walk never fails. The pages so far hold the matches among the first
records of the table, as many as were read, each once and in table order; with the last page these
are all records. Where matches are wanted and reading is allowed, each page gets ahead. -/
theorem fetch_visits_each_match_once
    (hids : (((dataset.table? table).getD []).map Record.id).Nodup)
    (hwalk : Reachable keep table dataset walk) (isOpen : walk.isOver = false) (size : Nat)
    (maxScan : Option Nat) :
    ∃ page, walk.fetch keep table size maxScan = .ok page ∧
      (walk.after page).scanned ≤ (walk.records table).length ∧
      (walk.after page).found =
        ((walk.records table).take (walk.after page).scanned).filter keep ∧
      (page.isDone = true →
        (walk.after page).scanned = (walk.records table).length ∧
        (walk.after page).found = (walk.records table).filter keep ∧
        page.next = none) ∧
      (0 < size → maxScan ≠ some 0 → page.isDone = true ∨ 0 < page.scanned) := by
  have hexact := hwalk.exact hids
  obtain ⟨page, hfetch, hpage⟩ := hexact.exists_page isOpen size maxScan
  have hafter := hexact.fetch isOpen hpage
  refine ⟨page, hfetch, hafter.le_length, hafter.found_eq, ?_, ?_⟩
  · intro hdone
    have hend : (walk.after page).scanned = (walk.records table).length := by
      simpa using hpage.isDone_iff.1 hdone
    refine ⟨hend, ?_, hpage.next_of_isDone hdone⟩
    have hfound := hafter.found_eq
    rwa [hend, records_after, List.take_length] at hfound
  · intro hsize hmaxScan
    rcases Nat.lt_or_eq_of_le hexact.le_length with hlt | heq
    · exact .inr (hpage.progress hsize hmaxScan hlt)
    · have := hpage.le_length
      exact .inl (hpage.isDone_iff.2 (by omega))

/-- A table of two records. -/
def twoRecords : Dataset :=
  (Dataset.empty.insert "t" ⟨"a", 0, .empty⟩).insert "t" ⟨"b", 1, .empty⟩

/-- A walk that has read the first of two records when a third one is added. -/
def grownWalk : Walk :=
  (after ⟨twoRecords, []⟩ ⟨[⟨"a", 0, .empty⟩], false, some "a", 1⟩).insert "t" ⟨"c", 2, .empty⟩

theorem fetch_visits_added_record :
    (((twoRecords.table? "t").getD []).map Record.id).Nodup ∧
      Reachable (fun record => record.id != "b") "t" twoRecords grownWalk ∧
      grownWalk.isOver = false ∧
      ∃ page, grownWalk.fetch (fun record => record.id != "b") "t" 2 none = .ok page ∧
        (grownWalk.after page).scanned ≤ (grownWalk.records "t").length ∧
        (grownWalk.after page).found =
          ((grownWalk.records "t").take (grownWalk.after page).scanned).filter
            (fun record => record.id != "b") ∧
        (page.isDone = true →
          (grownWalk.after page).scanned = (grownWalk.records "t").length ∧
          (grownWalk.after page).found =
            (grownWalk.records "t").filter (fun record => record.id != "b") ∧
          page.next = none) ∧
        (0 < 2 → (none : Option Nat) ≠ some 0 → page.isDone = true ∨ 0 < page.scanned) := by
  have hids : (((twoRecords.table? "t").getD []).map Record.id).Nodup := by decide
  have hwalk : Reachable (fun record => record.id != "b") "t" twoRecords grownWalk :=
    .insert "t" _ (.fetch 1 none .start rfl rfl) (fun _ => by decide)
  exact ⟨hids, hwalk, rfl, fetch_visits_each_match_once hids hwalk rfl 2 none⟩

end Walk

end RecordQuery
