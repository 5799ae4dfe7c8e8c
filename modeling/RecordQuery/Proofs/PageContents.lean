/-
RecordQuery.Proofs.PageContents — one page, described completely.

Where a page starts follows from the cursor alone: behind the first record with
its id. What the page holds is described by conditions on the records that were
read for it (`ExactPage`): none is skipped, no bound is exceeded, reading stops
only for a reason, and not later than the reason arises. These conditions leave
no choice: two pages that meet them are equal.

Main statements:
* `recordsAfter?_eq_map_drop` — the records behind a cursor, by its place;
* `recordsRead_stops`, `recordsRead_last` — why and where reading stops;
* `ExactPage.unique` — the conditions determine the page;
* `paginate_exact` — there is no page only for an unknown cursor, and otherwise
  the page that meets the conditions.
-/
import RecordQuery.Proofs.Page

namespace RecordQuery

variable {keep : Record → Bool} {records : List Record} {cursor : Option String}
  {request : PageRequest} {page other : Page} {start : Nat}

/-! ## Where a page starts -/

/-- The place at which a page starts: the first record, or the one behind the first record that has
the id of the cursor. -/
def startPlace? (cursor : Option String) (records : List Record) : Option Nat :=
  match cursor with
  | none => some 0
  | some id => (records.findIdx? fun record => record.id = id).map (· + 1)

theorem recordsBehind?_eq_map_drop (id : String) (records : List Record) :
    recordsBehind? id records =
      ((records.findIdx? fun record => record.id = id).map (· + 1)).map records.drop := by
  induction records with
  | nil => rfl
  | cons record records ih =>
    rw [recordsBehind?, List.findIdx?_cons]
    by_cases hid : record.id = id
    · simp [hid]
    · simp only [hid, if_false, ih, decide_false, Bool.false_eq_true, Option.map_map]
      rfl

/-- What lies behind a cursor are the records from its place on. -/
theorem recordsAfter?_eq_map_drop (cursor : Option String) (records : List Record) :
    recordsAfter? cursor records = (startPlace? cursor records).map records.drop := by
  cases cursor with
  | none => rfl
  | some id => exact recordsBehind?_eq_map_drop id records

theorem startPlace?_eq_none_iff :
    startPlace? cursor records = none ↔
      ∃ id, cursor = some id ∧ ∀ record ∈ records, record.id ≠ id := by
  cases cursor with
  | none => simp [startPlace?]
  | some id => simp [startPlace?, List.findIdx?_eq_none_iff]

/-- A page starts at the end of the table at the latest. -/
theorem startPlace?_le_length (h : startPlace? cursor records = some start) :
    start ≤ records.length := by
  cases cursor with
  | none =>
    obtain rfl : 0 = start := Option.some.inj h
    exact Nat.zero_le _
  | some id =>
    obtain ⟨place, hplace, rfl⟩ := Option.map_eq_some_iff.1 h
    obtain ⟨hlt, -, -⟩ := List.findIdx?_eq_some_iff_getElem.1 hplace
    exact hlt

/-! ## Why and where reading stops -/

/-- No more records are read than the bound allows. -/
theorem length_recordsRead_le {room bound : Nat} :
    (recordsRead keep room (some bound) records).length ≤ bound := by
  induction records generalizing room bound with
  | nil => exact Nat.zero_le _
  | cons record records ih =>
    cases room with
    | zero => exact Nat.zero_le _
    | succ room =>
      cases bound with
      | zero => exact Nat.zero_le _
      | succ bound =>
        rw [recordsRead, List.length_cons]
        · exact Nat.succ_le_succ ih
        · intro hzero
          cases hzero

/-- Reading stops before the end only if there is no more room or the bound is met. -/
theorem recordsRead_stops {room : Nat} {bound : Option Nat}
    (h : (recordsRead keep room bound records).length < records.length) :
    ((recordsRead keep room bound records).filter keep).length = room ∨
      bound = some (recordsRead keep room bound records).length := by
  fun_induction recordsRead keep room bound records with
  | case1 => exact absurd h (Nat.lt_irrefl _)
  | case2 => exact .inl rfl
  | case3 => exact .inr rfl
  | case4 room bound record records hbound ih =>
    simp only [List.length_cons] at h ⊢
    rcases ih (by omega) with hroom | hmet
    · refine .inl ?_
      by_cases hkeep : keep record = true
      · simp only [hkeep, if_true] at hroom
        simpa [hkeep] using hroom
      · simp only [hkeep] at hroom
        simpa [hkeep] using hroom
    · obtain ⟨left, rfl, hpred⟩ := Option.map_eq_some_iff.1 hmet
      have hpos : left ≠ 0 := fun hzero => hbound (by rw [hzero])
      exact .inr (congrArg some (by omega))

/-- Nothing is read behind the match that fills the room. -/
theorem recordsRead_last {room : Nat} {bound : Option Nat}
    (hroom : ((recordsRead keep room bound records).filter keep).length = room) :
    ∀ last ∈ (recordsRead keep room bound records).getLast?, keep last = true := by
  fun_induction recordsRead keep room bound records with
  | case1 => simp
  | case2 => simp
  | case3 => simp
  | case4 room bound record records hbound ih =>
    intro last hlast
    by_cases hkeep : keep record = true
    · simp only [hkeep, if_true] at ih hlast hroom
      generalize recordsRead keep room _ records = read at ih hlast hroom
      cases read with
      | nil =>
        obtain rfl : record = last := by simpa using hlast
        exact hkeep
      | cons first read => exact ih (by simpa [hkeep] using hroom) last (by simpa using hlast)
    · simp only [hkeep] at ih hlast hroom
      generalize recordsRead keep (if false = true then room else room + 1) _ records = read
        at ih hlast hroom
      cases read with
      | nil => simp [hkeep] at hroom
      | cons first read => exact ih (by simpa [hkeep] using hroom) last (by simpa using hlast)

/-! ## The page -/

/-- The records that were read for a page with this start. -/
def Page.read (page : Page) (records : List Record) (start : Nat) : List Record :=
  (records.drop start).take page.scanned

/-- A page is what the request asks for: the matches among the records that were read from the start
on, at most as many as wanted and within the bound. Nothing is read if nothing is wanted. Otherwise
reading stops at the end of the table, at the bound, or with the last match that was wanted. The page
is the last one if the end was reached, and else goes on behind the last record that was read. -/
structure ExactPage (keep : Record → Bool) (records : List Record) (request : PageRequest)
    (start : Nat) (page : Page) : Prop where
  le_length : start + page.scanned ≤ records.length
  records_eq : page.records = (page.read records start).filter keep
  length_le_size : page.records.length ≤ request.size
  scanned_le_bound : ∀ bound ∈ request.maxScan, page.scanned ≤ bound
  scanned_eq_zero : request.size = 0 → page.scanned = 0
  stops : 0 < request.size → start + page.scanned < records.length →
    page.records.length = request.size ∨ request.maxScan = some page.scanned
  last_match : page.records.length = request.size →
    ∀ last ∈ (page.read records start).getLast?, keep last = true
  isDone_iff : page.isDone = true ↔ start + page.scanned = records.length
  next_of_isDone : page.isDone = true → page.next = none
  next_of_open : page.isDone = false →
    page.next = ((page.read records start).getLast?.map Record.id).or request.cursor

/-- The conditions on a page say how many records are read for it: with fewer there would be no
reason to stop, and the last of more would be one match too many. -/
theorem ExactPage.scanned_le (h : ExactPage keep records request start page)
    (hother : ExactPage keep records request start other) : other.scanned ≤ page.scanned := by
  by_contra hlt
  rw [Nat.not_le] at hlt
  have hend := hother.le_length
  have hsize : 0 < request.size := by
    rcases Nat.eq_zero_or_pos request.size with hzero | hpos
    · have := hother.scanned_eq_zero hzero
      omega
    · exact hpos
  rcases h.stops hsize (by omega) with hfull | hbound
  · have hmore := Nat.add_sub_of_le (Nat.le_of_lt hlt)
    have hread : other.read records start = page.read records start ++
        ((records.drop start).drop page.scanned).take (other.scanned - page.scanned) := by
      rw [Page.read, Page.read, ← List.take_add, hmore]
    generalize hrest : ((records.drop start).drop page.scanned).take
      (other.scanned - page.scanned) = rest at hread
    have hne : rest ≠ [] := by
      intro hnil
      have hlength := congrArg List.length hrest
      rw [hnil, List.length_take, List.length_drop, List.length_drop, List.length_nil] at hlength
      omega
    have hcount : request.size + (rest.filter keep).length ≤ request.size := by
      have hle := hother.length_le_size
      rwa [hother.records_eq, hread, List.filter_append, List.length_append, ← h.records_eq,
        hfull] at hle
    have hothers : other.records.length = request.size := by
      rw [hother.records_eq, hread, List.filter_append, List.length_append, ← h.records_eq, hfull]
      omega
    have hlast := hother.last_match hothers (rest.getLast hne) (by
      rw [hread, List.getLast?_append_of_ne_nil _ hne, List.getLast?_eq_some_getLast hne]
      rfl)
    have hmatch : rest.getLast hne ∈ rest.filter keep :=
      List.mem_filter.2 ⟨List.getLast_mem hne, hlast⟩
    have := List.length_pos_of_mem hmatch
    omega
  · have := hother.scanned_le_bound _ hbound
    omega

/-- At most one page meets the conditions. -/
theorem ExactPage.unique (h : ExactPage keep records request start page)
    (hother : ExactPage keep records request start other) : page = other := by
  have hscanned : page.scanned = other.scanned :=
    Nat.le_antisymm (hother.scanned_le h) (h.scanned_le hother)
  have hread : page.read records start = other.read records start := by
    rw [Page.read, Page.read, hscanned]
  have hrecords : page.records = other.records := by
    rw [h.records_eq, hother.records_eq, hread]
  have hdone : page.isDone = other.isDone := by
    rw [Bool.eq_iff_iff, h.isDone_iff, hother.isDone_iff, hscanned]
  have hnext : page.next = other.next := by
    cases hcase : page.isDone with
    | true => rw [h.next_of_isDone hcase, hother.next_of_isDone (hdone ▸ hcase)]
    | false => rw [h.next_of_open hcase, hother.next_of_open (hdone ▸ hcase), hread]
  cases page
  cases other
  simp_all

/-- A cursor stands at the place at which its page starts. -/
theorem standsAt_of_startPlace? (h : startPlace? cursor records = some start) :
    StandsAt cursor records start := by
  refine ⟨startPlace?_le_length h, ?_⟩
  rw [recordsAfter?_eq_map_drop, h]
  rfl

/-- The records behind the start that a page counts are the ones that were read for it. -/
theorem Page.read_eq_recordsRead (hstands : StandsAt request.cursor records start)
    (hpage : paginate keep request records = .ok page) :
    page.read records start =
      recordsRead keep request.size request.maxScan (records.drop start) := by
  have hprefix := recordsRead_prefix keep request.size request.maxScan (records.drop start)
  have hscanned : page.scanned =
      (recordsRead keep request.size request.maxScan (records.drop start)).length := by
    simp only [paginate, hstands.after] at hpage
    rw [← Except.ok.inj hpage]
  rw [Page.read, hscanned]
  exact (List.prefix_iff_eq_take.1 hprefix).symm

/-- From a place in the table there is a page, and it meets the conditions. -/
theorem exists_exactPage (keep : Record → Bool)
    (h : startPlace? request.cursor records = some start) :
    ∃ page, paginate keep request records = .ok page ∧
      ExactPage keep records request start page := by
  have hstands := standsAt_of_startPlace? h
  obtain ⟨page, hpage, hat⟩ := paginate_of_standsAt keep hstands
  have hread := Page.read_eq_recordsRead hstands hpage
  have hlength : page.scanned = (page.read records start).length := by
    have hle := hat.le_length
    rw [Page.read, List.length_take, List.length_drop]
    omega
  have hrecords : page.records = (page.read records start).filter keep := hat.records_eq
  refine ⟨page, hpage, ?_⟩
  -- What `PageAt` does not say is why reading stopped: this is read off from `recordsRead`.
  constructor
  case le_length => exact hat.le_length
  case records_eq => exact hrecords
  case length_le_size => exact hat.length_le
  case scanned_le_bound =>
    intro bound hbound
    rw [hlength, hread, Option.mem_def.1 hbound]
    exact length_recordsRead_le
  case scanned_eq_zero =>
    intro hzero
    rw [hlength, hread, hzero]
    cases records.drop start <;> simp [recordsRead]
  case stops =>
    intro _ hopen
    rw [hrecords, hlength, hread]
    refine recordsRead_stops ?_
    rw [← hread, ← hlength, List.length_drop]
    omega
  case last_match =>
    rw [hrecords, hread]
    exact recordsRead_last
  case isDone_iff => exact hat.isDone_iff
  case next_of_isDone => exact hat.next_of_isDone
  case next_of_open => exact hat.next_of_open

/-- A request fails exactly if its cursor is no record's id, and the error names the cursor. In every
other case its answer is the one page that meets the conditions. -/
theorem paginate_exact (keep : Record → Bool) (request : PageRequest) (records : List Record) :
    (∀ error, paginate keep request records = .error error ↔
      ∃ id, request.cursor = some id ∧ (∀ record ∈ records, record.id ≠ id) ∧
        error = .invalidCursor id) ∧
    ∀ page, paginate keep request records = .ok page ↔
      ∃ start, startPlace? request.cursor records = some start ∧
        ExactPage keep records request start page := by
  cases hstart : startPlace? request.cursor records with
  | none =>
    obtain ⟨id, hcursor, hnone⟩ := startPlace?_eq_none_iff.1 hstart
    have hafter : recordsAfter? request.cursor records = none := by
      rw [recordsAfter?_eq_map_drop, hstart]
      rfl
    rw [paginate_of_recordsAfter?_eq_none keep hafter, hcursor]
    refine ⟨fun error => ?_, fun page => by simp⟩
    constructor
    · intro herror
      exact ⟨id, rfl, hnone, (Except.error.inj herror).symm⟩
    · rintro ⟨other, hother, -, rfl⟩
      rw [Option.some.inj hother]
      rfl
  | some start =>
    obtain ⟨page, hpage, hexact⟩ := exists_exactPage keep hstart
    rw [hpage]
    refine ⟨fun error => ?_, fun other => ?_⟩
    · constructor
      · exact nofun
      · rintro ⟨id, hcursor, hnone, -⟩
        rw [startPlace?_eq_none_iff.2 ⟨id, hcursor, hnone⟩] at hstart
        cases hstart
    · constructor
      · intro hother
        rw [← Except.ok.inj hother]
        exact ⟨start, rfl, hexact⟩
      · rintro ⟨place, hplace, hother⟩
        cases hplace
        rw [hexact.unique hother]

end RecordQuery
