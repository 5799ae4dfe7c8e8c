/-
RecordQuery.Proofs.Toml.Quoted — strings of a TOML document are read back.

A string may be written in four ways, and which one is taken depends on what it
holds. All of them are read back, whatever the string is. Between single quotes
every character stands for itself, so nothing may stand there that ends the
string or cannot stand in it. Between double quotes an escape names the others.
Between three quotes the end is found by counting: the text falls into runs of
at most two quotes with another character, or with an escaped quote, behind
each, and only the last run touches the quotes that end the string.

Main statements:
* `escaped_cases` — a character stands for itself, or an escape names it;
* `readTriple_run`, `readTriple_end` — a run of quotes inside of a string and at its end;
* `readText_quoted` — a whole string between its quotes.
-/
import RecordQuery.Toml.Quoted
import RecordQuery.Toml.Reader

namespace RecordQuery.Toml

variable {cs rest : List Char} {c quote : Char} {n : Nat}

/-! ## Escapes -/

/-- The four digits of a control character name it. -/
theorem readCodePoint_fourDigits : ∀ n < 0x80,
    readCodePoint 4 (fourDigits n) = some (Char.ofNat n) ∧ (fourDigits n).length = 4 := by
  decide +kernel

theorem readEscape_fourDigits (h : c.toNat < 0x80) (rest : List Char) :
    readEscape ('u' :: fourDigits c.toNat ++ rest) = some (c, 5) := by
  obtain ⟨hread, hlength⟩ := readCodePoint_fourDigits c.toNat h
  have happend : readCodePoint 4 (fourDigits c.toNat ++ rest) = some c := by
    rw [Char.ofNat_toNat] at hread
    rw [← hread]
    simp [readCodePoint, List.take_of_length_le, hlength]
  simp [readEscape, happend]

/-- A character that is neither a space, a tab nor a line end joins no lines. -/
theorem foldedLength_eq_none (hblank : isBlank c = false) (hfeed : c ≠ '\n') (hreturn : c ≠ '\r') :
    foldedLength (c :: rest) = none := by
  have hskip : skipBlanks (c :: rest) = c :: rest := by simp [skipBlanks, hblank]
  have hnone : skipNewline (c :: rest) = none := by
    unfold skipNewline
    split <;> simp_all
  simp [foldedLength, hskip, hnone]

theorem isPlain_of_isControl (h : isControl c = false) (hfeed : c ≠ '\n') : isPlain c = true := by
  simp only [isControl, isPlain, Bool.or_eq_false_iff, Bool.and_eq_false_iff,
    decide_eq_false_iff_not, Bool.or_eq_true, Bool.and_eq_true, decide_eq_true_eq] at h ⊢
  by_cases htab : c = '\t'
  · exact .inl htab
  · obtain ⟨(hlow | htab') | hfeed', hdelete⟩ := h
    · exact .inr ⟨by omega, hdelete⟩
    · exact absurd htab (by simpa using htab')
    · exact absurd hfeed (by simpa using hfeed')

theorem ne_return_of_isControl (h : isControl c = false) : c ≠ '\r' := by
  rintro rfl
  simp [isControl] at h

/-- No character of a text without line ends and control characters ends a line. -/
theorem ends_no_line (hfeed : '\n' ∉ cs) (hcontrol : ∀ c ∈ cs, isControl c = false) (h : c ∈ cs) :
    c ≠ '\n' ∧ c ≠ '\r' := by
  refine ⟨?_, ne_return_of_isControl (hcontrol c h)⟩
  rintro rfl
  exact hfeed h

/-- Between double quotes a character stands for itself, or an escape names it. Behind the backslash
of an escape no line ends. -/
theorem escaped_cases (c : Char) :
    (escaped c = [c] ∧ isControl c = false ∧ c ≠ '\\') ∨
      ∃ name, escaped c = '\\' :: name ∧ ∀ rest,
        readEscape (name ++ rest) = some (c, name.length) ∧ foldedLength (name ++ rest) = none := by
  have hnamed {letter : Char} (hletter : isBlank letter = false ∧ letter ≠ '\n' ∧ letter ≠ '\r')
      {name : List Char} (rest : List Char) : foldedLength (letter :: name ++ rest) = none :=
    foldedLength_eq_none hletter.1 hletter.2.1 hletter.2.2
  unfold escaped
  split
  · rename_i h
    exact .inr ⟨_, rfl, fun rest => ⟨by subst h; rfl, hnamed (by decide) rest⟩⟩
  split
  · rename_i h
    exact .inr ⟨_, rfl, fun rest => ⟨by subst h; rfl, hnamed (by decide) rest⟩⟩
  split
  · rename_i h
    exact .inr ⟨_, rfl, fun rest => ⟨by subst h; rfl, hnamed (by decide) rest⟩⟩
  split
  · rename_i h
    exact .inr ⟨_, rfl, fun rest => ⟨by subst h; rfl, hnamed (by decide) rest⟩⟩
  split
  · rename_i h
    exact .inr ⟨_, rfl, fun rest => ⟨by subst h; rfl, hnamed (by decide) rest⟩⟩
  rename_i hbackslash
  split
  · rename_i hcontrol
    have hlow : c.toNat < 0x80 := by
      simp only [isControl, Bool.or_eq_true, Bool.and_eq_true, decide_eq_true_eq] at hcontrol
      omega
    refine .inr ⟨_, rfl, fun rest => ⟨?_, hnamed (by decide) rest⟩⟩
    rw [readEscape_fourDigits hlow, List.length_cons, (readCodePoint_fourDigits c.toNat hlow).2]
  · rename_i hcontrol
    exact .inl ⟨rfl, by simpa using hcontrol, hbackslash⟩

/-! ## Double quotes -/

/-- What an escape takes is passed over. -/
theorem readBasic_eq_drop (n : Nat) (cs : List Char) : readBasic n cs = readBasic 0 (cs.drop n) := by
  induction cs generalizing n with
  | nil => cases n <;> rfl
  | cons c cs ih =>
    cases n with
    | zero => rfl
    | succ n => rw [readBasic, List.drop_succ_cons, ih]

theorem readBasic_escaped (hquote : c ≠ '"') (hfeed : c ≠ '\n') (rest : List Char) :
    readBasic 0 (escaped c ++ rest) = prepend c (readBasic 0 rest) := by
  rcases escaped_cases c with ⟨hself, hcontrol, hbackslash⟩ | ⟨name, hescaped, hname⟩
  · rw [hself, List.singleton_append, readBasic.eq_5 _ _ hquote hbackslash,
      if_pos (isPlain_of_isControl hcontrol hfeed)]
  · rw [hescaped, List.cons_append, readBasic, (hname rest).1]
    show prepend c (readBasic name.length (name ++ rest)) = _
    rw [readBasic_eq_drop, List.drop_left]

theorem readBasic_escapedBody (hfeed : '\n' ∉ cs) (rest : List Char) :
    readBasic 0 (escapedBody 0 0 cs ++ '"' :: rest) = some (cs, rest) := by
  induction cs with
  | nil => rfl
  | cons c cs ih =>
    simp only [List.mem_cons, not_or] at hfeed
    rw [escapedBody]
    split
    · rename_i hquote
      subst hquote
      simp [readBasic, readEscape, ih hfeed.2, prepend]
    · rename_i hquote
      rw [List.append_assoc, readBasic_escaped hquote (Ne.symm hfeed.1), ih hfeed.2]
      rfl

/-! ## Single quotes -/

theorem readLiteral_plain (hquote : '\'' ∉ cs) (hplain : ∀ c ∈ cs, isPlain c = true)
    (rest : List Char) : readLiteral (cs ++ '\'' :: rest) = some (cs, rest) := by
  induction cs with
  | nil => rfl
  | cons c cs ih =>
    simp only [List.mem_cons, not_or] at hquote
    obtain ⟨hc, hcs⟩ := List.forall_mem_cons.1 hplain
    rw [List.cons_append, readLiteral.eq_3 _ _ (Ne.symm hquote.1), if_pos hc, ih hquote.2 hcs]
    rfl

/-! ## Three quotes -/

/-- A text begins with a run of at most two quotes, behind which it ends or another character
stands, or with two quotes and one more. -/
theorem run_cases (quote : Char) (cs : List Char) :
    ∃ n ≤ 2, cs = List.replicate n quote ∨
      (∃ c more, c ≠ quote ∧ cs = List.replicate n quote ++ c :: more) ∨
      (n = 2 ∧ ∃ more, cs = List.replicate n quote ++ quote :: more) := by
  match cs with
  | [] => exact ⟨0, by omega, .inl rfl⟩
  | first :: cs =>
    by_cases hfirst : first = quote
    · match cs with
      | [] => exact ⟨1, by omega, .inl (by rw [hfirst]; rfl)⟩
      | second :: cs =>
        by_cases hsecond : second = quote
        · match cs with
          | [] => exact ⟨2, by omega, .inl (by rw [hfirst, hsecond]; rfl)⟩
          | third :: cs =>
            by_cases hthird : third = quote
            · exact ⟨2, by omega, .inr (.inr ⟨rfl, cs, by rw [hfirst, hsecond, hthird]; rfl⟩)⟩
            · exact ⟨2, by omega, .inr (.inl ⟨third, cs, hthird, by rw [hfirst, hsecond]; rfl⟩)⟩
        · exact ⟨1, by omega, .inr (.inl ⟨second, cs, hsecond, by rw [hfirst]; rfl⟩)⟩
    · exact ⟨0, by omega, .inr (.inl ⟨first, cs, hfirst, rfl⟩)⟩

theorem takeWhile_run (hc : c ≠ quote) :
    (List.replicate n quote ++ c :: rest).takeWhile (· = quote) = List.replicate n quote := by
  induction n with
  | zero => simp [hc]
  | succ n ih => simp [List.replicate_succ, ih]

/-- Fewer than three quotes are no end. -/
theorem closeTriple_run (hn : n < 3) (hc : c ≠ quote) :
    closeTriple quote (List.replicate n quote ++ c :: rest) = none := by
  rw [closeTriple, takeWhile_run hc, List.length_replicate, if_pos hn]

/-- Up to two quotes in front of the three that end a string belong to it. -/
theorem closeTriple_end (hn : n ≤ 2) (hc : c ≠ quote) :
    closeTriple quote (List.replicate (n + 3) quote ++ c :: rest) =
      some (List.replicate n quote, c :: rest) := by
  have hmin : min (n + 3 - 3) 2 = n := by omega
  rw [closeTriple, takeWhile_run hc, List.length_replicate, if_neg (by omega)]
  simp only [hmin]
  rw [Nat.add_comm 3 n, List.drop_append_of_le_length (by simp), List.drop_replicate]
  simp

theorem readTriple_quote (escapes : Bool) (cs : List Char) :
    readTriple quote escapes 0 (quote :: cs) =
      (closeTriple quote (quote :: cs)).or (prepend quote (readTriple quote escapes 0 cs)) := by
  rw [readTriple, if_pos rfl]
  cases closeTriple quote (quote :: cs) <;> rfl

/-- The end of a string, with the quotes that belong to it. -/
theorem readTriple_end (escapes : Bool) (hn : n ≤ 2) (hc : c ≠ quote) :
    readTriple quote escapes 0 (List.replicate n quote ++ ([quote, quote, quote] ++ c :: rest)) =
      some (List.replicate n quote, c :: rest) := by
  have htext : List.replicate n quote ++ ([quote, quote, quote] ++ c :: rest) =
      quote :: (List.replicate (n + 2) quote ++ c :: rest) := by
    rw [← List.append_assoc, show [quote, quote, quote] = List.replicate 3 quote from rfl,
      List.replicate_append_replicate, List.replicate_succ, List.cons_append]
  have hclose : closeTriple quote (List.replicate (n + 3) quote ++ c :: rest) =
      some (List.replicate n quote, c :: rest) := closeTriple_end hn hc
  rw [List.replicate_succ, List.cons_append] at hclose
  rw [htext, readTriple_quote, hclose]
  rfl

/-- A run of quotes inside of a string stands for itself. -/
theorem readTriple_run (escapes : Bool) (hn : n ≤ 2) (hc : c ≠ quote) :
    readTriple quote escapes 0 (List.replicate n quote ++ c :: rest) =
      (readTriple quote escapes 0 (c :: rest)).map fun found =>
        (List.replicate n quote ++ found.1, found.2) := by
  induction n with
  | zero => simp
  | succ n ih =>
    have hclose : closeTriple quote (List.replicate (n + 1) quote ++ c :: rest) = none :=
      closeTriple_run (by omega) hc
    rw [List.replicate_succ, List.cons_append] at hclose
    rw [List.replicate_succ, List.cons_append, readTriple_quote, hclose, ih (by omega)]
    cases readTriple quote escapes 0 (c :: rest) <;> rfl

theorem readTriple_eq_drop (escapes : Bool) (n : Nat) (cs : List Char) :
    readTriple quote escapes n cs = readTriple quote escapes 0 (cs.drop n) := by
  induction cs generalizing n with
  | nil => cases n <;> rfl
  | cons c cs ih =>
    cases n with
    | zero => rfl
    | succ n => rw [readTriple, List.drop_succ_cons, ih]

/-- What is neither a control character, a quote nor the start of an escape stands for itself. -/
theorem readTriple_plain {escapes : Bool} (hquote : c ≠ quote) (hbackslash : ¬ (c = '\\' ∧ escapes))
    (hcontrol : isControl c = false) (rest : List Char) :
    readTriple quote escapes 0 (c :: rest) = prepend c (readTriple quote escapes 0 rest) := by
  have hreturn := ne_return_of_isControl hcontrol
  rw [readTriple, if_neg hquote, if_neg hbackslash]
  split
  · rename_i hfeed
    rw [hfeed]
  · rename_i hfeed
    rw [if_pos (isPlain_of_isControl hcontrol hfeed)]

theorem readTriple_escaped (hquote : c ≠ '"') (rest : List Char) :
    readTriple '"' true 0 (escaped c ++ rest) = prepend c (readTriple '"' true 0 rest) := by
  rcases escaped_cases c with ⟨hself, hcontrol, hbackslash⟩ | ⟨name, hescaped, hname⟩
  · rw [hself, List.singleton_append, readTriple_plain hquote (by simp [hbackslash]) hcontrol]
  · rw [hescaped, List.cons_append, readTriple, if_neg (by decide), if_pos (by decide),
      (hname rest).2, (hname rest).1]
    show prepend c (readTriple '"' true name.length (name ++ rest)) = _
    rw [readTriple_eq_drop, List.drop_left]

/-- An escape begins with no quote. -/
theorem exists_escaped (hquote : c ≠ '"') :
    ∃ first more, first ≠ '"' ∧ escaped c = first :: more := by
  rcases escaped_cases c with ⟨hself, -, -⟩ | ⟨name, hescaped, -⟩
  · exact ⟨c, [], hquote, hself⟩
  · exact ⟨'\\', name, by decide, hescaped⟩

/-- Quotes that are allowed stand for themselves. -/
theorem escapedBody_run (hn : n ≤ 2) (cs : List Char) :
    escapedBody 2 0 (List.replicate n '"' ++ cs) = List.replicate n '"' ++ escapedBody 2 n cs := by
  obtain rfl | rfl | rfl : n = 0 ∨ n = 1 ∨ n = 2 := by omega
  · rfl
  · simp [escapedBody]
  · simp [escapedBody, List.replicate]

theorem escapedBody_other (hc : c ≠ '"') (cs : List Char) :
    escapedBody 2 n (c :: cs) = escaped c ++ escapedBody 2 0 cs := by
  rw [escapedBody, if_neg hc]

/-- Between three double quotes every text is read back. -/
theorem readTriple_escapedBody (cs rest : List Char) :
    readTriple '"' true 0 (escapedBody 2 0 cs ++ (['"', '"', '"'] ++ '\n' :: rest)) =
      some (cs, '\n' :: rest) := by
  induction hlength : cs.length using Nat.strongRecOn generalizing cs with
  | ind length ih =>
    subst hlength
    -- Each run of quotes leaves a shorter text, before which no quotes are counted.
    obtain ⟨n, hn, rfl | ⟨c, more, hc, rfl⟩ | ⟨rfl, more, rfl⟩⟩ := run_cases '"' cs
    · have hbody : escapedBody 2 0 (List.replicate n '"') = List.replicate n '"' := by
        simpa [escapedBody] using escapedBody_run hn []
      rw [hbody]
      exact readTriple_end true hn (by decide)
    · obtain ⟨first, name, hfirst, hescaped⟩ := exists_escaped hc
      have hmore := ih more.length (by simp; omega) more rfl
      have hread := readTriple_escaped hc (escapedBody 2 0 more ++ (['"', '"', '"'] ++ '\n' :: rest))
      rw [hmore, hescaped, List.cons_append] at hread
      rw [escapedBody_run hn, escapedBody_other hc, hescaped, List.append_assoc, List.cons_append,
        List.cons_append, List.append_assoc, readTriple_run true hn hfirst, hread]
      rfl
    · have hmore := ih more.length (by simp; omega) more rfl
      have hbody : escapedBody 2 2 ('"' :: more) = '\\' :: '"' :: escapedBody 2 0 more := by
        rw [escapedBody, if_pos rfl, if_neg (by decide)]
      have hescape : readTriple '"' true 0
          ('\\' :: '"' :: (escapedBody 2 0 more ++ (['"', '"', '"'] ++ '\n' :: rest))) =
            some ('"' :: more, '\n' :: rest) := by
        rw [readTriple, if_neg (by decide), if_pos (by decide),
          foldedLength_eq_none (by decide) (by decide) (by decide)]
        show prepend '"' (readTriple '"' true 1 _) = _
        rw [readTriple_eq_drop, List.drop_one, List.tail_cons, hmore]
        rfl
      rw [escapedBody_run hn, hbody, List.append_assoc, List.cons_append, List.cons_append,
        readTriple_run true hn (by decide), hescape]
      rfl

theorem longestRunFrom_run (quote : Char) (run n : Nat) (cs : List Char) :
    longestRunFrom quote run (List.replicate n quote ++ cs) = longestRunFrom quote (run + n) cs := by
  induction n generalizing run with
  | zero => rfl
  | succ n ih =>
    rw [List.replicate_succ, List.cons_append, longestRunFrom, if_pos rfl, ih]
    congr 1
    omega

theorem le_longestRunFrom (quote : Char) (run : Nat) (cs : List Char) :
    run ≤ longestRunFrom quote run cs := by
  induction cs generalizing run with
  | nil => exact Nat.le_refl _
  | cons c cs ih =>
    rw [longestRunFrom]
    split
    · exact Nat.le_trans (Nat.le_succ run) (ih (run + 1))
    · exact Nat.le_max_left _ _

/-- Between three single quotes a text is read back that has no three of them in a row and no
control characters. -/
theorem readTriple_literal (hcontrol : ∀ c ∈ cs, isControl c = false)
    (hrun : longestRun '\'' cs ≤ 2) (rest : List Char) :
    readTriple '\'' false 0 (cs ++ (['\'', '\'', '\''] ++ '\n' :: rest)) =
      some (cs, '\n' :: rest) := by
  induction hlength : cs.length using Nat.strongRecOn generalizing cs with
  | ind length ih =>
    subst hlength
    obtain ⟨n, hn, rfl | ⟨c, more, hc, rfl⟩ | ⟨rfl, more, rfl⟩⟩ := run_cases '\'' cs
    · exact readTriple_end false hn (by decide)
    · rw [longestRun, longestRunFrom_run, longestRunFrom, if_neg hc] at hrun
      have hmore := ih more.length (by simp; omega) (fun d hd => hcontrol d (by simp [hd]))
        (Nat.le_trans (Nat.le_max_right _ _) hrun) rfl
      rw [List.append_assoc, List.cons_append, readTriple_run false hn hc,
        readTriple_plain hc (by simp) (hcontrol c (by simp)), hmore]
      rfl
    · rw [longestRun, longestRunFrom_run, longestRunFrom, if_pos rfl] at hrun
      have hthree := le_longestRunFrom '\'' (0 + 2 + 1) more
      omega

/-! ## Whole strings -/

/-- What each of the four ways to write a string asks of it. -/
theorem quotingOf_cases (cs : List Char) :
    (quotingOf cs = .double ∧ '\n' ∉ cs) ∨
    (quotingOf cs = .single ∧ '\n' ∉ cs ∧ (∀ c ∈ cs, isControl c = false) ∧ longestRun '\'' cs = 0) ∨
    (quotingOf cs = .tripleDouble ∧ ('\n' ∉ cs → ∀ c ∈ cs, isControl c = false)) ∨
    (quotingOf cs = .tripleSingle ∧ (∀ c ∈ cs, isControl c = false) ∧ longestRun '\'' cs ≤ 2) := by
  simp only [quotingOf]
  split
  · simp_all
  split
  · simp_all
  split
  · simp_all
  split
  · simp_all
  split
  · simp_all
  · simp_all

/-- A text in which a character does not come twice in a row does not have it at all. -/
theorem not_mem_of_longestRun (h : longestRun quote cs = 0) : quote ∉ cs := by
  unfold longestRun at h
  induction cs with
  | nil => simp
  | cons c cs ih =>
    rw [longestRunFrom] at h
    split at h
    · have hone := le_longestRunFrom quote (0 + 1) cs
      omega
    · rename_i hc
      simp only [List.mem_cons, not_or]
      exact ⟨Ne.symm hc, ih (by omega)⟩

theorem readText_double (h : ∀ more, cs ≠ '"' :: '"' :: more) :
    readText ('"' :: cs) = (readBasic 0 cs).map fun found => (String.ofList found.1, found.2) := by
  unfold readText
  split <;> simp_all

theorem readText_single (h : ∀ more, cs ≠ '\'' :: '\'' :: more) :
    readText ('\'' :: cs) = (readLiteral cs).map fun found => (String.ofList found.1, found.2) := by
  unfold readText
  split <;> simp_all

/-- The line end that a string of several lines begins with is dropped, and nothing else. -/
theorem dropNewline_body {body : List Char} (h : '\n' ∉ cs → ∀ c ∈ body.head?, c ≠ '\n' ∧ c ≠ '\r') :
    dropNewline ((if cs.contains '\n' then ['\n'] else []) ++ body) = body := by
  by_cases hfeed : '\n' ∈ cs
  · simp [hfeed, dropNewline, skipNewline]
  · cases body with
    | nil => simp [hfeed, dropNewline, skipNewline]
    | cons c body =>
      obtain ⟨hc, hreturn⟩ := h hfeed c rfl
      simp only [hfeed, List.contains_iff_mem, if_false, List.nil_append, dropNewline]
      unfold skipNewline
      split <;> simp_all

theorem readText_quoted_double (hquoting : quotingOf cs = .double) (hfeed : '\n' ∉ cs)
    (rest : List Char) :
    readText (quoted cs ++ '\n' :: rest) = some (String.ofList cs, '\n' :: rest) := by
  have htext : quoted cs ++ '\n' :: rest = '"' :: (escapedBody 0 0 cs ++ '"' :: '\n' :: rest) := by
    simp [quoted, hquoting, hfeed, Quoting.mark, Quoting.body]
  have hopen (more : List Char) : escapedBody 0 0 cs ++ '"' :: '\n' :: rest ≠ '"' :: '"' :: more := by
    cases cs with
    | nil => simp [escapedBody]
    | cons c cs =>
      rw [escapedBody]
      split
      · simp
      · rename_i hc
        obtain ⟨first, name, hfirst, hescaped⟩ := exists_escaped hc
        simp [hescaped, hfirst]
  rw [htext, readText_double hopen, readBasic_escapedBody hfeed]
  rfl

theorem readText_quoted_single (hquoting : quotingOf cs = .single) (hfeed : '\n' ∉ cs)
    (hcontrol : ∀ c ∈ cs, isControl c = false) (hquote : '\'' ∉ cs) (rest : List Char) :
    readText (quoted cs ++ '\n' :: rest) = some (String.ofList cs, '\n' :: rest) := by
  have htext : quoted cs ++ '\n' :: rest = '\'' :: (cs ++ '\'' :: '\n' :: rest) := by
    simp [quoted, hquoting, hfeed, Quoting.mark, Quoting.body]
  have hopen (more : List Char) : cs ++ '\'' :: '\n' :: rest ≠ '\'' :: '\'' :: more := by
    cases cs with
    | nil => simp
    | cons c cs =>
      intro heq
      exact hquote (by simp [(List.cons.inj heq).1])
  have hplain (c : Char) (hc : c ∈ cs) : isPlain c = true :=
    isPlain_of_isControl (hcontrol c hc) fun h => hfeed (h ▸ hc)
  rw [htext, readText_single hopen, readLiteral_plain hquote hplain]
  rfl

theorem readText_quoted_tripleDouble (hquoting : quotingOf cs = .tripleDouble)
    (hcontrol : '\n' ∉ cs → ∀ c ∈ cs, isControl c = false) (rest : List Char) :
    readText (quoted cs ++ '\n' :: rest) = some (String.ofList cs, '\n' :: rest) := by
  have htext : quoted cs ++ '\n' :: rest = '"' :: '"' :: '"' ::
      ((if cs.contains '\n' then ['\n'] else []) ++
        (escapedBody 2 0 cs ++ (['"', '"', '"'] ++ '\n' :: rest))) := by
    simp [quoted, hquoting, Quoting.mark, Quoting.body]
  have hbody (hfeed : '\n' ∉ cs) :
      ∀ c ∈ (escapedBody 2 0 cs ++ (['"', '"', '"'] ++ '\n' :: rest)).head?, c ≠ '\n' ∧ c ≠ '\r' := by
    cases cs with
    | nil => simp [escapedBody]
    | cons c cs =>
      have hc := ends_no_line hfeed (hcontrol hfeed) List.mem_cons_self
      rw [escapedBody]
      split
      · simp
      · rcases escaped_cases c with ⟨hself, -, -⟩ | ⟨name, hescaped, -⟩
        · simp [hself, hc]
        · simp [hescaped]
  rw [htext, readText, dropNewline_body hbody, readTriple_escapedBody]
  rfl

theorem readText_quoted_tripleSingle (hquoting : quotingOf cs = .tripleSingle)
    (hcontrol : ∀ c ∈ cs, isControl c = false) (hrun : longestRun '\'' cs ≤ 2) (rest : List Char) :
    readText (quoted cs ++ '\n' :: rest) = some (String.ofList cs, '\n' :: rest) := by
  have htext : quoted cs ++ '\n' :: rest = '\'' :: '\'' :: '\'' ::
      ((if cs.contains '\n' then ['\n'] else []) ++
        (cs ++ (['\'', '\'', '\''] ++ '\n' :: rest))) := by
    simp [quoted, hquoting, Quoting.mark, Quoting.body]
  have hbody (hfeed : '\n' ∉ cs) :
      ∀ c ∈ (cs ++ (['\'', '\'', '\''] ++ '\n' :: rest)).head?, c ≠ '\n' ∧ c ≠ '\r' := by
    cases cs with
    | nil => simp
    | cons c cs =>
      simpa using ends_no_line hfeed hcontrol List.mem_cons_self
  rw [htext, readText, dropNewline_body hbody, readTriple_literal hcontrol hrun]
  rfl

/-- A written string is read back, and nothing of the next line. -/
theorem readText_quoted (cs rest : List Char) :
    readText (quoted cs ++ '\n' :: rest) = some (String.ofList cs, '\n' :: rest) := by
  rcases quotingOf_cases cs with
    ⟨hquoting, hfeed⟩ | ⟨hquoting, hfeed, hcontrol, hrun⟩ | ⟨hquoting, hcontrol⟩ |
      ⟨hquoting, hcontrol, hrun⟩
  · exact readText_quoted_double hquoting hfeed rest
  · exact readText_quoted_single hquoting hfeed hcontrol (not_mem_of_longestRun hrun) rest
  · exact readText_quoted_tripleDouble hquoting hcontrol rest
  · exact readText_quoted_tripleSingle hquoting hcontrol hrun rest

end RecordQuery.Toml
