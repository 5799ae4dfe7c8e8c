/-
RecordQuery.Proofs.Json.Entries — reading the entries of written lists and objects.

Lists and objects are written entry by entry, with a comma in front of all but
the first and white space around them, and they are read by one loop each, for
any reader of items or members. So their laws are stated here once, for readers
of anything: if every entry is read back wherever it stands, so is the whole.

An entry need not be readable: one that nests too deep is refused. `ReadsIf`
keeps both sides together: what fits is read back, what does not is refused.

Main statements:
* `readItems_written` — a written list behind its opening bracket;
* `readMembers_written` — the members of a written object behind the first ones.
-/
import RecordQuery.Proofs.Json.Number
import RecordQuery.Proofs.Json.Text

namespace RecordQuery

/-- Nothing but white space stands between the tokens. -/
structure Layout.IsBlank (layout : Layout) : Prop where
  lineBreak : ∀ depth, ∀ c ∈ layout.lineBreak depth, Json.isSpace c = true
  afterColon : ∀ c ∈ layout.afterColon, Json.isSpace c = true

theorem Layout.isBlank_compact : Layout.compact.IsBlank where
  lineBreak _ _ hc := by simp [Layout.compact] at hc
  afterColon _ hc := by simp [Layout.compact] at hc

theorem Layout.isBlank_pretty : Layout.pretty.IsBlank where
  lineBreak depth c hc := by
    rcases List.mem_cons.1 hc with rfl | hc
    · decide
    · rw [List.eq_of_mem_replicate hc]
      decide
  afterColon c hc := by
    rw [List.mem_singleton.1 hc]
    decide

namespace Json

variable {α β σ τ : Type} {fits fits' : Prop} {blank close rest cs : List Char} {c : Char}
  {budget : Nat}

/-! ## Answers to written text -/

/-- The answer to a written value: the value and what stands behind it if the value fits, a fault
if it does not. -/
structure ReadsIf (fits : Prop) (value : α) (rest : List Char)
    (answer : Except Fault (α × List Char)) : Prop where
  ok : fits → answer = .ok (value, rest)
  error : ¬fits → ∃ fault, answer = .error fault

namespace ReadsIf

variable {value : α} {answer : Except Fault (α × List Char)}

theorem of_ok (h : answer = .ok (value, rest)) (hfits : fits) : ReadsIf fits value rest answer :=
  ⟨fun _ => h, fun hnot => absurd hfits hnot⟩

theorem of_error (fault : Fault) (h : answer = .error fault) (hfits : ¬fits) :
    ReadsIf fits value rest answer :=
  ⟨fun hfit => absurd hfit hfits, fun _ => ⟨fault, h⟩⟩

theorem congr (h : ReadsIf fits value rest answer) (hfits : fits ↔ fits') :
    ReadsIf fits' value rest answer :=
  ⟨fun hfit => h.ok (hfits.2 hfit), fun hnot => h.error fun hfit => hnot (hfits.1 hfit)⟩

theorem map (h : ReadsIf fits value rest answer) (f : α → β) :
    ReadsIf fits (f value) rest (answer.map fun found => (f found.1, found.2)) where
  ok hfits := by rw [h.ok hfits]; rfl
  error hfits := by
    obtain ⟨fault, hfault⟩ := h.error hfits
    exact ⟨fault, by rw [hfault]; rfl⟩

/-- One reader after another: both values have to fit. -/
theorem bind {behind : List Char} {value' : β} (h : ReadsIf fits value behind answer)
    {next : α × List Char → Except Fault (β × List Char)}
    (hnext : ReadsIf fits' value' rest (next (value, behind))) :
    ReadsIf (fits ∧ fits') value' rest (answer.bind next) where
  ok hfits := by rw [h.ok hfits.1]; exact hnext.ok hfits.2
  error hfits := by
    by_cases hfirst : fits
    · rw [h.ok hfirst]
      exact hnext.error fun hsecond => hfits ⟨hfirst, hsecond⟩
    · obtain ⟨fault, hfault⟩ := h.error hfirst
      exact ⟨fault, by rw [hfault]; rfl⟩

end ReadsIf

/-! ## White space -/

theorem skipSpace_append (hblank : ∀ c ∈ blank, isSpace c = true) (cs : List Char) :
    skipSpace (blank ++ cs) = skipSpace cs :=
  List.dropWhile_append_of_pos hblank

theorem skipSpace_cons (hc : isSpace c = false) (cs : List Char) :
    skipSpace (c :: cs) = c :: cs := by
  simp [skipSpace, hc]

/-- A number does not go on behind white space and a character that cannot belong to it. -/
theorem numberEnd_append (hblank : ∀ c ∈ blank, isSpace c = true)
    (hc : NumberEnd (c :: cs)) : NumberEnd (blank ++ c :: cs) := by
  cases blank with
  | nil => exact hc
  | cons b blank =>
    have hb := hblank b (List.mem_cons_self ..)
    simp only [isSpace, Bool.or_eq_true, decide_eq_true_eq] at hb
    refine numberEnd_cons ?_ _
    rcases hb with ((rfl | rfl) | rfl) | rfl <;> decide

/-! ## Lists -/

/-- How a written value begins: with a character that is neither white space nor closes a list. -/
def ValueStart (cs : List Char) : Prop := ∃ c more, cs = c :: more ∧ isSpace c = false ∧ c ≠ ']'

theorem readItems_entry {item : Reader α} {first : Bool} {start : List Char}
    (h : nextItem first cs = .ok (.entry start)) :
    readItems item (budget + 1) first cs =
      (item start).bind fun found =>
        (readItems item budget false found.2).map fun more => (found.1 :: more.1, more.2) := by
  rw [readItems]
  simp only [h]
  cases item start <;> rfl

theorem nextItem_close (first : Bool) (hclose : ∀ c ∈ close, isSpace c = true) :
    nextItem first (close ++ ']' :: rest) = .ok (.closed rest) := by
  rw [nextItem, skipSpace_append hclose, skipSpace_cons (by decide)]
  rfl

theorem readItems_close (item : Reader α) (budget : Nat) (first : Bool)
    (hclose : ∀ c ∈ close, isSpace c = true) :
    readItems item (budget + 1) first (close ++ ']' :: rest) = .ok ([], rest) := by
  rw [readItems, nextItem_close first hclose]

theorem nextItem_first (hblank : ∀ c ∈ blank, isSpace c = true) (hstart : ValueStart cs) :
    nextItem true (blank ++ (cs ++ rest)) = .ok (.entry (cs ++ rest)) := by
  obtain ⟨c, more, rfl, hspace, hc⟩ := hstart
  rw [nextItem, skipSpace_append hblank, List.cons_append, skipSpace_cons hspace]
  simp [hc]

theorem nextItem_next (hblank : ∀ c ∈ blank, isSpace c = true) (hstart : ValueStart cs) :
    nextItem false (',' :: (blank ++ (cs ++ rest))) = .ok (.entry (cs ++ rest)) := by
  obtain ⟨c, more, rfl, hspace, hc⟩ := hstart
  rw [nextItem, skipSpace_cons (by decide)]
  simp only [skipSpace_append hblank, List.cons_append, skipSpace_cons hspace]
  simp [hc]

/-- Texts with a comma and white space in front of each. -/
def commaChars (blank : List Char) (text : α → List Char) (entries : List α) : List Char :=
  entries.flatMap fun entry => ',' :: (blank ++ text entry)

theorem commaChars_cons (text : α → List Char) (entry : α) (entries : List α) :
    commaChars blank text (entry :: entries) =
      ',' :: (blank ++ (text entry ++ commaChars blank text entries)) := by
  simp [commaChars]

theorem length_le_commaChars (blank : List Char) (text : α → List Char) (entries : List α) :
    entries.length ≤ (commaChars blank text entries).length := by
  induction entries with
  | nil => exact Nat.zero_le _
  | cons entry entries ih =>
    rw [commaChars_cons]
    simp only [List.length_cons, List.length_append]
    omega

theorem length_text_le_commaChars (blank : List Char) (text : α → List Char) {entry : α}
    {entries : List α} (h : entry ∈ entries) :
    (text entry).length ≤ (commaChars blank text entries).length := by
  induction entries with
  | nil => cases h
  | cons other entries ih =>
    rw [commaChars_cons]
    simp only [List.length_cons, List.length_append]
    rcases List.mem_cons.1 h with rfl | h
    · omega
    · have := ih h
      omega

theorem commaChars_map (blank : List Char) (text : β → List Char) (f : α → β) (entries : List α) :
    commaChars blank text (entries.map f) = commaChars blank (fun entry => text (f entry)) entries :=
  List.flatMap_map ..

/-- Behind an entry comes a comma or white space and the closing bracket, so no number goes on. -/
theorem numberEnd_commaChars (blank : List Char) (text : α → List Char) (entries : List α)
    (hclose : ∀ c ∈ close, isSpace c = true) (hrest : NumberEnd (c :: rest)) :
    NumberEnd (commaChars blank text entries ++ (close ++ c :: rest)) := by
  cases entries with
  | nil => exact numberEnd_append hclose hrest
  | cons entry entries =>
    rw [commaChars_cons]
    exact numberEnd_cons (by decide) _

section Items

variable {item : Reader β} {text : α → List Char} {reading : α → β} {ok : α → Prop}

/-- The items of a list behind the first. -/
theorem readItems_behind (hblank : ∀ c ∈ blank, isSpace c = true)
    (hclose : ∀ c ∈ close, isSpace c = true) (xs : List α) (rest : List Char)
    (hstart : ∀ x ∈ xs, ValueStart (text x))
    (hitem : ∀ x ∈ xs, ∀ rest, NumberEnd rest →
      ReadsIf (ok x) (reading x) rest (item (text x ++ rest)))
    (hbudget : xs.length < budget) :
    ReadsIf (∀ x ∈ xs, ok x) (xs.map reading) rest
      (readItems item budget false (commaChars blank text xs ++ (close ++ ']' :: rest))) := by
  induction xs generalizing budget with
  | nil =>
    obtain ⟨budget, rfl⟩ : ∃ n, budget = n + 1 := ⟨budget - 1, by omega⟩
    exact .of_ok (readItems_close item budget false hclose) (by simp)
  | cons x xs ih =>
    obtain ⟨budget, rfl⟩ : ∃ n, budget = n + 1 := ⟨budget - 1, by omega⟩
    have hlength : xs.length < budget := Nat.lt_of_succ_lt_succ hbudget
    have hx := hitem x (List.mem_cons_self ..) _
      (numberEnd_commaChars blank text xs hclose (numberEnd_cons (c := ']') (by decide) rest))
    have hxs := ih (fun y hy => hstart y (List.mem_cons_of_mem _ hy))
      (fun y hy => hitem y (List.mem_cons_of_mem _ hy)) hlength
    rw [commaChars_cons, List.cons_append, List.append_assoc, List.append_assoc,
      readItems_entry (nextItem_next hblank (hstart x (List.mem_cons_self ..)))]
    exact (hx.bind (hxs.map _)).congr (by simp)

/-- The items of a written list behind its opening bracket. -/
theorem readItems_written (hblank : ∀ c ∈ blank, isSpace c = true)
    (hclose : ∀ c ∈ close, isSpace c = true) (x : α) (xs : List α)
    (hstart : ∀ y ∈ x :: xs, ValueStart (text y))
    (hitem : ∀ y ∈ x :: xs, ∀ rest, NumberEnd rest →
      ReadsIf (ok y) (reading y) rest (item (text y ++ rest)))
    (hbudget : xs.length + 1 < budget) :
    ReadsIf (∀ y ∈ x :: xs, ok y) ((x :: xs).map reading) rest
      (readItems item budget true
        (blank ++ (text x ++ (commaChars blank text xs ++ (close ++ ']' :: rest))))) := by
  obtain ⟨budget, rfl⟩ : ∃ n, budget = n + 1 := ⟨budget - 1, by omega⟩
  have hlength : xs.length < budget := Nat.lt_of_succ_lt_succ hbudget
  have hx := hitem x (List.mem_cons_self ..) _
    (numberEnd_commaChars blank text xs hclose (numberEnd_cons (c := ']') (by decide) rest))
  have hxs := readItems_behind hblank hclose xs rest
    (fun y hy => hstart y (List.mem_cons_of_mem _ hy))
    (fun y hy => hitem y (List.mem_cons_of_mem _ hy)) hlength
  rw [readItems_entry (nextItem_first hblank (hstart x (List.mem_cons_self ..)))]
  exact (hx.bind (hxs.map _)).congr (by simp)

end Items

/-! ## Objects -/

theorem nextKey_close (first : Bool) (hclose : ∀ c ∈ close, isSpace c = true) :
    nextKey first (close ++ '}' :: rest) = .ok (.closed rest) := by
  rw [nextKey, skipSpace_append hclose, skipSpace_cons (by decide)]
  rfl

theorem readMembers_close (member : σ → String → Reader σ) (budget : Nat) (first : Bool)
    (state : σ) (hclose : ∀ c ∈ close, isSpace c = true) :
    readMembers member (budget + 1) first state (close ++ '}' :: rest) = .ok (state, rest) := by
  rw [readMembers, nextKey_close first hclose]

theorem nextKey_first (hblank : ∀ c ∈ blank, isSpace c = true) :
    nextKey true (blank ++ '"' :: cs) = .ok (.entry cs) := by
  rw [nextKey, skipSpace_append hblank, skipSpace_cons (by decide)]
  rfl

theorem nextKey_next (hblank : ∀ c ∈ blank, isSpace c = true) :
    nextKey false (',' :: (blank ++ '"' :: cs)) = .ok (.entry cs) := by
  rw [nextKey, skipSpace_cons (by decide)]
  simp only [skipSpace_append hblank, skipSpace_cons (show isSpace '"' = false by decide)]
  rfl

/-- A written key is handed to the reader of members. -/
theorem readMembers_entry {member : σ → String → Reader σ} {first : Bool} {state : σ}
    {key : String}
    (h : nextKey first cs = .ok (.entry (key.toList.flatMap escapeChar ++ '"' :: rest))) :
    readMembers member (budget + 1) first state cs =
      (member state key rest).bind fun found =>
        readMembers member budget false found.1 found.2 := by
  rw [readMembers]
  simp only [h, readText_stringChars]
  cases member state key rest <;> rfl

/-- A written member: its key, the colon, and its value. -/
def memberText (afterColon : List Char) (text : α → List Char) (member : String × α) :
    List Char :=
  stringChars member.1 ++ ':' :: (afterColon ++ text member.2)

theorem memberText_append (afterColon : List Char) (text : α → List Char) (member : String × α)
    (rest : List Char) :
    memberText afterColon text member ++ rest =
      '"' :: (member.1.toList.flatMap escapeChar ++
        '"' :: ':' :: (afterColon ++ (text member.2 ++ rest))) := by
  simp [memberText, stringChars]

section Members

variable {member : σ → String → Reader σ} {text : α → List Char} {afterColon : List Char}
  {step : τ → String × α → τ} {embed : τ → σ} {ok : String × α → Prop}

/-- The members of an object behind the first ones. The reader's states may be more than the states
in which it is while it reads these members; `embed` tells which those are. -/
theorem readMembers_behind (hblank : ∀ c ∈ blank, isSpace c = true)
    (hclose : ∀ c ∈ close, isSpace c = true) (members : List (String × α)) (state : τ)
    (rest : List Char)
    (hmember : ∀ m ∈ members, ∀ state rest, NumberEnd rest →
      ReadsIf (ok m) (embed (step state m)) rest
        (member (embed state) m.1 (':' :: (afterColon ++ (text m.2 ++ rest)))))
    (hbudget : members.length < budget) :
    ReadsIf (∀ m ∈ members, ok m) (embed (members.foldl step state)) rest
      (readMembers member budget false (embed state)
        (commaChars blank (memberText afterColon text) members ++ (close ++ '}' :: rest))) := by
  induction members generalizing budget state with
  | nil =>
    obtain ⟨budget, rfl⟩ : ∃ n, budget = n + 1 := ⟨budget - 1, by omega⟩
    exact .of_ok (readMembers_close member budget false (embed state) hclose) (by simp)
  | cons m members ih =>
    obtain ⟨budget, rfl⟩ : ∃ n, budget = n + 1 := ⟨budget - 1, by omega⟩
    have hlength : members.length < budget := Nat.lt_of_succ_lt_succ hbudget
    have hm := hmember m (List.mem_cons_self ..) state _
      (numberEnd_commaChars blank (memberText afterColon text) members hclose
        (numberEnd_cons (c := '}') (by decide) rest))
    have hmembers := ih (step state m) (fun n hn => hmember n (List.mem_cons_of_mem _ hn)) hlength
    rw [commaChars_cons, List.cons_append, List.append_assoc, List.append_assoc,
      memberText_append, readMembers_entry (nextKey_next hblank)]
    exact (hm.bind hmembers).congr (by simp)

/-- The members of a written object behind its opening brace. -/
theorem readMembers_written (hblank : ∀ c ∈ blank, isSpace c = true)
    (hclose : ∀ c ∈ close, isSpace c = true) (m : String × α) (members : List (String × α))
    (state : τ)
    (hmember : ∀ n ∈ m :: members, ∀ state rest, NumberEnd rest →
      ReadsIf (ok n) (embed (step state n)) rest
        (member (embed state) n.1 (':' :: (afterColon ++ (text n.2 ++ rest)))))
    (hbudget : members.length + 1 < budget) :
    ReadsIf (∀ n ∈ m :: members, ok n) (embed ((m :: members).foldl step state)) rest
      (readMembers member budget true (embed state)
        (blank ++ (memberText afterColon text m ++
          (commaChars blank (memberText afterColon text) members ++ (close ++ '}' :: rest))))) := by
  obtain ⟨budget, rfl⟩ : ∃ n, budget = n + 1 := ⟨budget - 1, by omega⟩
  have hlength : members.length < budget := Nat.lt_of_succ_lt_succ hbudget
  have hm := hmember m (List.mem_cons_self ..) state _
    (numberEnd_commaChars blank (memberText afterColon text) members hclose
      (numberEnd_cons (c := '}') (by decide) rest))
  have hmembers := readMembers_behind hblank hclose members (step state m) rest
    (fun n hn => hmember n (List.mem_cons_of_mem _ hn)) hlength
  rw [memberText_append, readMembers_entry (nextKey_first hblank)]
  exact (hm.bind hmembers).congr (by simp)

end Members

theorem readColon_written (cs : List Char) : readColon (':' :: cs) = .ok cs := by
  rw [readColon, skipSpace_cons (by decide)]
  rfl

end Json

end RecordQuery
