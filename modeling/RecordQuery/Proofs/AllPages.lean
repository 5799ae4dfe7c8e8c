/-
RecordQuery.Proofs.AllPages — fetching page after page until one is the last.

`FetchedIn` says what the loop over the pages of a request does, without any
bound on their number: it fails with the first page that fails, and it ends
with the first page that is the last. `Dataset.fetch?` runs the same loop with
a bound, and the bound is no restriction: a loop that ends meets no cursor
twice, and a table has no more cursors than ids.

Whether the loop ends rests on the ids of the table. If those of all records
but the last are distinct, each page starts behind the one before, and the
pages together are one pass over the table. Otherwise some loop goes round
without end.

Main statements:
* `fetch?_eq_some_iff` — the bounded loop is the loop;
* `fetchedIn_of_standsAt`, `not_fetchedIn_of_standsAt` — when it ends, and when not;
* `fetch?_returns_iff` — every loop over a table ends exactly if it is resumable.
-/
import RecordQuery.Proofs.Page
import RecordQuery.Request
import RecordQuery.Dataset.Reader

namespace RecordQuery

/-! ## The loop over pages -/

/-- The pages from a cursor on are so many, and together they give this. -/
inductive FetchedIn {ε : Type} (fetch : Option String → Except ε Page) :
    (count : Nat) → (cursor : Option String) → Except ε Fetched → Prop
  | failure {cursor : Option String} {e : ε} (fetched : fetch cursor = .error e) :
      FetchedIn fetch 1 cursor (.error e)
  | last {cursor : Option String} {page : Page} (fetched : fetch cursor = .ok page)
      (isDone : page.isDone = true) :
      FetchedIn fetch 1 cursor (.ok ⟨page.records, true, page.next⟩)
  | more {cursor : Option String} {page : Page} {count : Nat} {result : Except ε Fetched}
      (fetched : fetch cursor = .ok page) (isOpen : page.isDone = false)
      (further : FetchedIn fetch count page.next result) :
      FetchedIn fetch (count + 1) cursor
        (result.map fun more => { more with records := page.records ++ more.records })

section Loop

variable {ε : Type} {fetch : Option String → Except ε Page} {cursor : Option String}
  {result : Except ε Fetched} {count limit : Nat}

theorem fetchPages?_of_fetchedIn (h : FetchedIn fetch count cursor result) (hle : count ≤ limit) :
    fetchPages? fetch limit cursor = some result := by
  induction h generalizing limit with
  | failure fetched =>
    obtain ⟨limit, rfl⟩ := Nat.exists_eq_add_of_le' hle
    simp [fetchPages?, fetched]
  | last fetched isDone =>
    obtain ⟨limit, rfl⟩ := Nat.exists_eq_add_of_le' hle
    simp [fetchPages?, fetched, isDone]
  | more fetched isOpen _ ih =>
    cases limit with
    | zero => exact absurd hle (Nat.not_succ_le_zero _)
    | succ limit => simp [fetchPages?, fetched, isOpen, ih (Nat.le_of_succ_le_succ hle)]

theorem exists_fetchedIn (h : fetchPages? fetch limit cursor = some result) :
    ∃ count, FetchedIn fetch count cursor result := by
  induction limit generalizing cursor result with
  | zero => simp [fetchPages?] at h
  | succ limit ih =>
    simp only [fetchPages?] at h
    split at h
    · rename_i e fetched
      obtain rfl := Option.some.inj h
      exact ⟨1, .failure fetched⟩
    · rename_i page fetched
      split at h
      · rename_i isDone
        obtain rfl := Option.some.inj h
        exact ⟨1, .last fetched isDone⟩
      · rename_i isOpen
        obtain ⟨rest, hrest, rfl⟩ := Option.map_eq_some_iff.1 h
        obtain ⟨count, further⟩ := ih hrest
        exact ⟨count + 1, .more fetched (by simpa using isOpen) further⟩

/-- From one cursor on there is one number of pages. -/
theorem FetchedIn.count_unique {other : Nat} {result' : Except ε Fetched}
    (h : FetchedIn fetch count cursor result) (h' : FetchedIn fetch other cursor result') :
    count = other := by
  induction h generalizing other result' with
  | failure fetched =>
    cases h' with
    | failure => rfl
    | last fetched' => simp [fetched] at fetched'
    | more fetched' => simp [fetched] at fetched'
  | last fetched isDone =>
    cases h' with
    | failure fetched' => simp [fetched] at fetched'
    | last => rfl
    | more fetched' isOpen =>
      obtain rfl := Except.ok.inj (fetched.symm.trans fetched')
      simp [isDone] at isOpen
  | more fetched isOpen _ ih =>
    cases h' with
    | failure fetched' => simp [fetched] at fetched'
    | last fetched' isDone =>
      obtain rfl := Except.ok.inj (fetched.symm.trans fetched')
      simp [isDone] at isOpen
    | more fetched' _ further' =>
      obtain rfl := Except.ok.inj (fetched.symm.trans fetched')
      rw [ih further']

/-- The cursors of a loop that ends are distinct: the number of pages that are left tells them
apart. -/
theorem FetchedIn.exists_trail (h : FetchedIn fetch count cursor result) :
    ∃ trail : List (Option String), trail.length + 1 = count ∧ (cursor :: trail).Nodup ∧
      (∀ next ∈ trail, ∃ fewer < count, ∃ rest, FetchedIn fetch fewer next rest) ∧
      ∀ next ∈ trail, ∃ earlier page, fetch earlier = .ok page ∧ page.isDone = false ∧
        page.next = next := by
  induction h with
  | failure => exact ⟨[], by simp⟩
  | last => exact ⟨[], by simp⟩
  | @more cursor page count result fetched isOpen further ih =>
    obtain ⟨trail, hlength, hnodup, hfewer, hpages⟩ := ih
    have hleft : ∀ next ∈ page.next :: trail,
        ∃ fewer < count + 1, ∃ rest, FetchedIn fetch fewer next rest := by
      intro next hnext
      rcases List.mem_cons.1 hnext with rfl | hnext
      · exact ⟨count, Nat.lt_succ_self _, result, further⟩
      · obtain ⟨fewer, hlt, hrest⟩ := hfewer next hnext
        exact ⟨fewer, Nat.lt_succ_of_lt hlt, hrest⟩
    refine ⟨page.next :: trail, by simpa using hlength, ?_, hleft, ?_⟩
    · refine List.nodup_cons.2 ⟨?_, hnodup⟩
      intro hmem
      obtain ⟨fewer, hlt, rest, hrest⟩ := hleft cursor hmem
      have := hrest.count_unique (.more fetched isOpen further)
      omega
    · intro next hnext
      rcases List.mem_cons.1 hnext with rfl | hnext
      · exact ⟨cursor, page, fetched, isOpen, rfl⟩
      · exact hpages next hnext

end Loop

/-! ## The pages of a table -/

/-- The pages of a table by their cursors. -/
def tablePages {ε : Type} (wrap : PageError → ε) (keep : Record → Bool) (size : Nat)
    (records : List Record) (cursor : Option String) : Except ε Page :=
  (paginate keep ⟨size, cursor, none⟩ records).mapError wrap

section Table

variable {ε : Type} {wrap : PageError → ε} {keep : Record → Bool} {size place last count : Nat}
  {records : List Record} {cursor : Option String} {page : Page} {result : Except ε Fetched}

theorem tablePages_of_standsAt (wrap : PageError → ε) (keep : Record → Bool) (size : Nat)
    (h : StandsAt cursor records place) :
    ∃ page, tablePages wrap keep size records cursor = .ok page ∧
      PageAt keep records place ⟨size, cursor, none⟩ page := by
  have h' : StandsAt (PageRequest.mk size cursor none).cursor records place := h
  obtain ⟨page, hpage, hat⟩ := paginate_of_standsAt keep h'
  exact ⟨page, by rw [tablePages, hpage]; rfl, hat⟩

/-- A page of a table starts where its cursor stands. -/
theorem exists_pageAt (h : tablePages wrap keep size records cursor = .ok page) :
    ∃ place, StandsAt cursor records place ∧
      PageAt keep records place ⟨size, cursor, none⟩ page := by
  cases hafter : recordsAfter? cursor records with
  | none => simp [tablePages, paginate, hafter, Except.mapError] at h
  | some rest =>
    obtain ⟨place, hstands, -⟩ := exists_standsAt hafter
    obtain ⟨other, hother, hat⟩ := tablePages_of_standsAt wrap keep size hstands
    obtain rfl := Except.ok.inj (h.symm.trans hother)
    exact ⟨place, hstands, hat⟩

/-- A page with room that is not the last reads some record. -/
theorem PageAt.scanned_pos (h : PageAt keep records place ⟨size, cursor, none⟩ page)
    (hsize : 0 < size) (hopen : page.isDone = false) : 0 < page.scanned := by
  have := h.lt_length hopen
  exact h.progress hsize nofun (by omega)

/-- Where every record matches, no more are read than are wanted. -/
theorem PageAt.scanned_le_size {request : PageRequest}
    (h : PageAt (fun _ => true) records place request page) : page.scanned ≤ request.size := by
  have hle := h.length_le
  have := h.le_length
  rw [h.records_eq, List.filter_true, List.length_take, List.length_drop] at hle
  omega

/-- In a resumable table the pages together are one pass from the cursor to the end. -/
theorem fetchedIn_of_standsAt (wrap : PageError → ε) (keep : Record → Bool) (hsize : 0 < size)
    (hids : Resumable records) (hstands : StandsAt cursor records place) :
    ∃ count, FetchedIn (tablePages wrap keep size records) count cursor
      (.ok ⟨(records.drop place).filter keep, true, none⟩) := by
  -- The induction is on the records that are left; every page but the last reads some.
  induction hleft : records.length - place using Nat.strongRecOn
    generalizing place cursor with
  | _ left ih =>
    obtain ⟨page, hpage, hat⟩ := tablePages_of_standsAt wrap keep size hstands
    cases hdone : page.isDone with
    | true =>
      have hend := hat.isDone_iff.1 hdone
      have hall : page.records = (records.drop place).filter keep := by
        rw [hat.records_eq, List.take_of_length_le (by rw [List.length_drop]; omega)]
      rw [← hall, ← hat.next_of_isDone hdone]
      exact ⟨1, .last hpage hdone⟩
    | false =>
      have hpos := hat.scanned_pos hsize hdone
      have hlt := hat.lt_length hdone
      obtain ⟨count, further⟩ :=
        ih _ (by omega) (hat.standsAt_next hstands hids hdone) rfl
      have hsplit : (records.drop place).filter keep =
          page.records ++ (records.drop (place + page.scanned)).filter keep := by
        rw [hat.records_eq, ← List.filter_append, ← List.drop_drop, List.take_append_drop]
      rw [hsplit]
      exact ⟨count + 1, .more hpage hdone further⟩

/-- Where the id of a record that is not the last occurs before, single records are fetched in
circles. -/
theorem not_fetchedIn_of_standsAt (hlast : last + 1 < records.length)
    (hrepeated : records[last].id ∈ (records.take last).map Record.id) (hle : place ≤ last)
    (hstands : StandsAt cursor records place) :
    ¬ FetchedIn (tablePages wrap (fun _ => true) 1 records) count cursor result := by
  intro h
  induction h generalizing place with
  | @failure cursor e fetched =>
    obtain ⟨page, hpage, -⟩ := tablePages_of_standsAt wrap (fun _ => true) 1 hstands
    simp [fetched] at hpage
  | @last cursor page fetched isDone =>
    obtain ⟨other, hother, hat⟩ := tablePages_of_standsAt wrap (fun _ => true) 1 hstands
    obtain rfl := Except.ok.inj (fetched.symm.trans hother)
    have hone : page.scanned ≤ 1 := hat.scanned_le_size
    have := hat.isDone_iff.1 isDone
    omega
  | @more cursor page count result fetched isOpen further ih =>
    obtain ⟨other, hother, hat⟩ := tablePages_of_standsAt wrap (fun _ => true) 1 hstands
    obtain rfl := Except.ok.inj (fetched.symm.trans hother)
    have hscanned : page.scanned = 0 + 1 :=
      Nat.le_antisymm hat.scanned_le_size (hat.scanned_pos Nat.one_pos isOpen)
    obtain ⟨hlt, hnext⟩ := hat.next_eq_id isOpen hscanned
    -- The id read last stands at or before `last`: it is an earlier record's or the repeated one.
    have hmem : records[place].id ∈ (records.take last).map Record.id := by
      rcases Nat.lt_or_eq_of_le hle with hlt | rfl
      · exact List.mem_map.2 ⟨records[place], List.mem_take_iff_getElem.2 ⟨place, by omega, rfl⟩, rfl⟩
      · exact hrepeated
    obtain ⟨next, hnextle, hnextAt⟩ := exists_standsAt_of_mem hmem
    exact ih hnextle (by rw [hnext]; exact hnextAt)

end Table

/-! ## The pages of a request -/

namespace Dataset

variable {dataset : Dataset} {table : String} {arguments : FilterArguments} {size : Nat}
  {cursor : Option String} {strict : Bool} {records : List Record}
  {result : Except RequestError Fetched}

/-- The pages of a request by their cursors. -/
def pages (dataset : Dataset) (table : String) (arguments : FilterArguments) (size : Nat)
    (strict : Bool) (cursor : Option String) : Except RequestError Page :=
  dataset.page table arguments ⟨size, cursor, none⟩ strict

theorem recordsOf_eq_ok (h : dataset.recordsOf table = .ok records) :
    records = (dataset.table? table).getD [] := by
  simp only [recordsOf] at h
  split at h
  · rename_i found htable
    rw [htable]
    exact (Except.ok.inj h).symm
  · rename_i htable
    rw [htable]
    split at h
    · exact (Except.ok.inj h).symm
    · cases h

/-- Arguments that cannot be used and tables that are not there fail every page in one way; else
the pages are those of the table. -/
theorem pages_cases (dataset : Dataset) (table : String) (arguments : FilterArguments)
    (strict : Bool) :
    (∃ e, ∀ size cursor, dataset.pages table arguments size strict cursor = .error e) ∨
      ∃ predicate records, arguments.compile strict = .ok predicate ∧
        dataset.recordsOf table = .ok records ∧
        ∀ size, dataset.pages table arguments size strict =
          tablePages .page (fun record => predicate.accepts record.view) size records := by
  cases hcompile : arguments.compile strict with
  | error e =>
    refine .inl ⟨.query e, fun size cursor => ?_⟩
    simp only [pages, page, hcompile]
    rfl
  | ok predicate =>
    cases hrecords : dataset.recordsOf table with
    | error e =>
      refine .inl ⟨e, fun size cursor => ?_⟩
      simp only [pages, page, hcompile, hrecords]
      rfl
    | ok records =>
      refine .inr ⟨predicate, records, rfl, rfl, fun size => ?_⟩
      funext cursor
      simp only [pages, page, hcompile, hrecords]
      rfl

/-- A loop that ends has no more pages than the table has cursors, that of the first page and the
ids. -/
theorem count_le_pageLimit {count : Nat} (hsize : 0 < size)
    (h : FetchedIn (dataset.pages table arguments size strict) count cursor result) :
    count ≤ dataset.pageLimit table := by
  obtain ⟨trail, hlength, hnodup, -, hpages⟩ := h.exists_trail
  have hsubset : trail ⊆ ((dataset.table? table).getD []).map fun record => some record.id := by
    intro next hnext
    obtain ⟨earlier, page, hpage, hopen, rfl⟩ := hpages next hnext
    rcases pages_cases dataset table arguments strict with ⟨e, he⟩ | ⟨_, records, -, hof, htable⟩
    · simp [he] at hpage
    · rw [htable] at hpage
      obtain ⟨place, -, hat⟩ := exists_pageAt hpage
      obtain ⟨scanned, hscanned⟩ :=
        Nat.exists_eq_add_of_le' (hat.scanned_pos hsize hopen)
      obtain ⟨hlt, hid⟩ := hat.next_eq_id hopen hscanned
      rw [← recordsOf_eq_ok hof, hid]
      exact List.mem_map.2 ⟨_, List.getElem_mem _, rfl⟩
  have htrail := (List.nodup_cons.1 hnodup).2.length_le_of_subset hsubset
  rw [List.length_map] at htrail
  simp only [pageLimit]
  omega

/-- The bound on the number of pages is no restriction: the result is that of the loop. -/
theorem fetch?_eq_some_iff (hsize : 0 < size) :
    dataset.fetch? table arguments size cursor true strict = some result ↔
      ∃ count, FetchedIn (dataset.pages table arguments size strict) count cursor result := by
  have hfetch : dataset.fetch? table arguments size cursor true strict =
      fetchPages? (dataset.pages table arguments size strict) (dataset.pageLimit table) cursor := by
    have hne : (size != 0) = true := by simpa using Nat.ne_of_gt hsize
    simp only [fetch?, hne, Bool.and_self, if_true]
    rfl
  rw [hfetch]
  constructor
  · exact exists_fetchedIn
  · rintro ⟨count, h⟩
    exact fetchPages?_of_fetchedIn h (count_le_pageLimit hsize h)

/-- Without `all` there is one page. -/
theorem fetch?_single (dataset : Dataset) (table : String) (arguments : FilterArguments)
    (size : Nat) (cursor : Option String) (strict : Bool) :
    dataset.fetch? table arguments size cursor false strict =
      some ((dataset.pages table arguments size strict cursor).map fun page =>
        ⟨page.records, page.isDone, page.next⟩) := rfl

/-- The arguments that let every record through. -/
def everything : FilterArguments := .ofQuery .matchAll .empty

theorem compile_everything : everything.compile false = .ok (.all []) := by
  cbv

/-! ## One pass over a resumable table -/

/-- What a request for all pages of a resumable table gives, whatever the size of a page: the fault
of the first page, or the matches behind the cursor. -/
theorem fetch?_of_resumable (hids : Resumable ((dataset.table? table).getD []))
    (arguments : FilterArguments) (cursor : Option String) (strict : Bool) :
    (∃ e, ∀ size, dataset.pages table arguments size strict cursor = .error e ∧
      (0 < size → dataset.fetch? table arguments size cursor true strict = some (.error e))) ∨
    ∃ predicate records place, arguments.compile strict = .ok predicate ∧
      dataset.recordsOf table = .ok records ∧ StandsAt cursor records place ∧
      ∀ size,
        (∃ page, dataset.pages table arguments size strict cursor = .ok page ∧
          PageAt (fun record => predicate.accepts record.view) records place
            ⟨size, cursor, none⟩ page) ∧
        (0 < size → dataset.fetch? table arguments size cursor true strict =
          some (.ok ⟨predicate.select (records.drop place), true, none⟩)) := by
  rcases pages_cases dataset table arguments strict with
    ⟨e, he⟩ | ⟨predicate, records, hcompile, hof, htable⟩
  · refine .inl ⟨e, fun size => ⟨he size cursor, fun hsize => ?_⟩⟩
    exact (fetch?_eq_some_iff hsize).2 ⟨1, .failure (he size cursor)⟩
  · rw [← recordsOf_eq_ok hof] at hids
    cases hafter : recordsAfter? cursor records with
    | none =>
      have hpages (size : Nat) : dataset.pages table arguments size strict cursor =
          .error (.page (.invalidCursor (cursor.getD ""))) := by
        rw [htable, tablePages, paginate_of_recordsAfter?_eq_none _ hafter]
        rfl
      refine .inl ⟨_, fun size => ⟨hpages size, fun hsize => ?_⟩⟩
      exact (fetch?_eq_some_iff hsize).2 ⟨1, .failure (hpages size)⟩
    | some rest =>
      obtain ⟨place, hstands, -⟩ := exists_standsAt hafter
      refine .inr ⟨predicate, records, place, hcompile, hof, hstands, fun size => ⟨?_, ?_⟩⟩
      · rw [htable]
        exact tablePages_of_standsAt _ _ _ hstands
      · intro hsize
        rw [fetch?_eq_some_iff hsize, htable]
        exact fetchedIn_of_standsAt _ _ hsize hids hstands

/-- The size of a page does not show in the result of all pages: it is the fault of the first page
or else the matches behind the cursor in table order, as one page with room for the whole table
would give them. -/
theorem fetch?_eq_single_pass (hids : (((dataset.table? table).getD []).map Record.id).Nodup)
    (hsize : 0 < size) (arguments : FilterArguments) (cursor : Option String) (strict : Bool) :
    (∀ e, dataset.fetch? table arguments size cursor true strict = some (.error e) ↔
      dataset.page table arguments ⟨size, cursor, none⟩ strict = .error e) ∧
    (∀ page, dataset.page table arguments ⟨size, cursor, none⟩ strict = .ok page →
      ∃ predicate records rest, arguments.compile strict = .ok predicate ∧
        dataset.recordsOf table = .ok records ∧ Behind cursor records rest ∧
        dataset.fetch? table arguments size cursor true strict =
          some (.ok ⟨predicate.select rest, true, none⟩)) ∧
    (∀ other, 0 < other → dataset.fetch? table arguments other cursor true strict =
      dataset.fetch? table arguments size cursor true strict) ∧
    (∀ whole, 0 < whole → ((dataset.table? table).getD []).length ≤ whole →
      dataset.fetch? table arguments whole cursor false strict =
        dataset.fetch? table arguments size cursor true strict) := by
  rcases fetch?_of_resumable (resumable_of_nodup hids) arguments cursor strict with
    ⟨e, he⟩ | ⟨predicate, records, place, hcompile, hof, hstands, hall⟩
  · have hpage : dataset.page table arguments ⟨size, cursor, none⟩ strict = .error e := (he size).1
    have hfetch := (he size).2 hsize
    refine ⟨?_, ?_, ?_, ?_⟩
    · simp [hpage, hfetch]
    · simp [hpage]
    · intro other hother
      rw [hfetch, (he other).2 hother]
    · intro whole _ _
      rw [hfetch, fetch?_single, (he whole).1]
      rfl
  · obtain ⟨⟨page, hpage, -⟩, hfetch⟩ := hall size
    have hpage' : dataset.page table arguments ⟨size, cursor, none⟩ strict = .ok page := hpage
    refine ⟨?_, ?_, ?_, ?_⟩
    · simp [hpage', hfetch hsize]
    · intro _ _
      exact ⟨predicate, records, _, hcompile, hof, hstands.behind, hfetch hsize⟩
    · intro other hother
      rw [hfetch hsize, (hall other).2 hother]
    · intro whole _ hwhole
      obtain ⟨⟨only, honly, hat⟩, -⟩ := hall whole
      rw [← recordsOf_eq_ok hof] at hwhole
      have hend : place + only.scanned = records.length :=
        hat.whole rfl (Nat.le_trans (Nat.sub_le _ _) hwhole)
      have hdone := hat.isDone_iff.2 hend
      have hrecords : only.records = predicate.select (records.drop place) := by
        rw [hat.records_eq, List.take_of_length_le (by rw [List.length_drop]; omega)]
        rfl
      rw [hfetch hsize, fetch?_single, honly, ← hrecords, ← hdone, ← hat.next_of_isDone hdone]
      rfl

/-- A table of three records. -/
def threeRecords : Dataset :=
  ((Dataset.empty.insert "t" ⟨"a", 0, .empty⟩).insert "t" ⟨"b", 1, .empty⟩).insert "t"
    ⟨"c", 2, .empty⟩

theorem fetch?_threeRecords :
    (((threeRecords.table? "t").getD []).map Record.id).Nodup ∧ 0 < 1 ∧
      threeRecords.fetch? "t" everything 1 (some "a") true false =
        some (.ok ⟨[⟨"b", 1, .empty⟩, ⟨"c", 2, .empty⟩], true, none⟩) := by
  have hids : (((threeRecords.table? "t").getD []).map Record.id).Nodup := by decide
  obtain ⟨-, -, -, hwhole⟩ := fetch?_eq_single_pass hids Nat.one_pos everything (some "a") false
  have hsingle : threeRecords.fetch? "t" everything 3 (some "a") false false =
      some (.ok ⟨[⟨"b", 1, .empty⟩, ⟨"c", 2, .empty⟩], true, none⟩) := by
    cbv
  exact ⟨hids, Nat.one_pos, (hwhole 3 (by decide) (by decide)).symm.trans hsingle⟩

/-! ## When all pages can be fetched -/

/-- Single records of a table that is not resumable are fetched without end. -/
theorem not_fetchedIn_of_not_resumable {count : Nat}
    (h : ¬ Resumable ((dataset.table? table).getD [])) :
    ¬ FetchedIn (dataset.pages table everything 1 false) count none result := by
  rw [resumable_iff] at h
  push Not at h
  obtain ⟨last, hlast, hrepeated⟩ := h
  cases htable : dataset.table? table with
  | none => simp [htable] at hlast
  | some records =>
    simp only [htable, Option.getD_some] at hlast hrepeated
    have hof : dataset.recordsOf table = .ok records := by simp [recordsOf, htable]
    have hpages : dataset.pages table everything 1 false =
        tablePages .page (fun _ => true) 1 records := by
      funext cursor
      simp only [pages, page, compile_everything, hof]
      rfl
    rw [hpages]
    exact not_fetchedIn_of_standsAt hlast hrepeated (Nat.zero_le _) (standsAt_none records)

/-- A request for all pages returns what the loop over the pages gives, and it returns for all
arguments, sizes and cursors exactly if the ids of all records of the table but the last are
distinct. -/
theorem fetch?_returns_iff (dataset : Dataset) (table : String) :
    (∀ arguments size cursor strict result, 0 < size →
      (dataset.fetch? table arguments size cursor true strict = some result ↔
        ∃ count, FetchedIn (dataset.pages table arguments size strict) count cursor result)) ∧
    ((∀ arguments size cursor strict, 0 < size →
      ∃ result, dataset.fetch? table arguments size cursor true strict = some result) ↔
        (((dataset.table? table).getD []).dropLast.map Record.id).Nodup) := by
  refine ⟨fun _ _ _ _ _ hsize => fetch?_eq_some_iff hsize, ?_, ?_⟩
  · intro hreturns
    by_contra hids
    obtain ⟨result, hresult⟩ := hreturns everything 1 none false Nat.one_pos
    obtain ⟨count, hcount⟩ := (fetch?_eq_some_iff Nat.one_pos).1 hresult
    exact not_fetchedIn_of_not_resumable hids hcount
  · intro hids arguments size cursor strict hsize
    rcases fetch?_of_resumable hids arguments cursor strict with
      ⟨e, he⟩ | ⟨_, _, _, -, -, -, hall⟩
    · exact ⟨_, (he size).2 hsize⟩
    · exact ⟨_, (hall size).2 hsize⟩

/-- A table whose second record has the id of the first. -/
def repeatedId : Dataset :=
  ((Dataset.empty.insert "players" ⟨"a", 0, .empty⟩).insert "players" ⟨"a", 1, .empty⟩).insert
    "players" ⟨"b", 2, .empty⟩

set_option maxRecDepth 20000 in
/-- Nothing keeps a repeated id out of a data file, and its records are fetched without end. -/
theorem fetch?_repeatedId_endless :
    Dataset.parse repeatedId.toJson.compact = .ok repeatedId ∧
      (∀ count result,
        ¬ FetchedIn (repeatedId.pages "players" everything 1 false) count none result) ∧
      repeatedId.fetch? "players" everything 1 none true false = none := by
  have hendless : ∀ count result,
      ¬ FetchedIn (repeatedId.pages "players" everything 1 false) count none result :=
    fun _ _ => not_fetchedIn_of_not_resumable (by decide)
  refine ⟨by cbv, hendless, ?_⟩
  refine Option.eq_none_iff_forall_ne_some.2 ?_
  intro result hresult
  obtain ⟨count, hcount⟩ := (fetch?_eq_some_iff Nat.one_pos).1 hresult
  exact hendless count result hcount

end Dataset

end RecordQuery
