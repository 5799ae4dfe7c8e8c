/-
RecordQuery.Proofs.Json.Skipped — what is read can be skipped.

The skipper checks the tokens of a value that is of no interest and builds
nothing. It accepts more than the reader: numbers out of range, halves of
surrogate pairs, any depth. But where the reader finds a value, the skipper goes
over the same characters and stops at the same place. The reader follows the
value by recursion on the levels, the skipper step by step with a stack of
brackets, so the statement about a value is about what the skipper does next,
whatever brackets are open.

Main statements:
* `skipText_of_readChars`, `skipNumber_of_readNumber` — the tokens;
* `goesOver_of_readValue` — values, with the number of steps;
* `skipValue_of_readValue` — the budget of a text suffices.
-/
import RecordQuery.Json.Typed
import RecordQuery.Proofs.Except
import RecordQuery.Proofs.Json.Result

namespace RecordQuery.Json

variable {budget levels number extra : Nat} {negative : Bool} {c : Char}
  {cs more rest behind start : List Char}

/-! ## White space -/

theorem length_dropWhile_le (p : Char → Bool) (cs : List Char) :
    (cs.dropWhile p).length ≤ cs.length :=
  (List.dropWhile_suffix p).length_le

theorem length_of_skipSpace_cons (h : skipSpace cs = c :: more) : more.length < cs.length := by
  have hle : (skipSpace cs).length ≤ cs.length := length_dropWhile_le isSpace cs
  rw [h, List.length_cons] at hle
  exact hle

/-- The first token does not begin with white space. -/
theorem isSpace_of_skipSpace_cons (h : skipSpace cs = c :: more) : isSpace c = false := by
  have hhead := List.head?_dropWhile_not isSpace cs
  rw [skipSpace] at h
  rw [h] at hhead
  simpa using hhead

theorem skipSpace_of_cons (h : skipSpace cs = c :: more) : skipSpace (c :: more) = c :: more :=
  skipSpace_cons (isSpace_of_skipSpace_cons h) more

theorem skipSpace_skipSpace (cs : List Char) : skipSpace (skipSpace cs) = skipSpace cs := by
  cases h : skipSpace cs with
  | nil => rfl
  | cons c more => exact skipSpace_of_cons h

/-- A value may have white space in front of it. -/
theorem readValue_skipSpace (cs : List Char) :
    readValue budget levels (skipSpace cs) = readValue budget levels cs :=
  readValue_congr (skipSpace_skipSpace cs)

/-! ## Strings -/

/-- The characters of an escape are passed over. -/
theorem skipText_drop (taken : Nat) (cs : List Char) :
    skipText taken cs = skipText 0 (cs.drop taken) := by
  induction taken generalizing cs with
  | zero => rfl
  | succ taken ih =>
    cases cs with
    | nil => rfl
    | cons c cs => exact ih cs

theorem readPairLetter_eq_ok {letter : Char} (h : readPairLetter letter cs = .ok rest) :
    cs = letter :: rest := by
  cases cs with
  | nil => cases h
  | cons c cs =>
    rw [readPairLetter] at h
    split at h
    · rename_i hc
      cases h
      rw [hc]
    · cases h

/-- A low surrogate is skipped as an escape of its own. -/
theorem skipText_of_readPair {low : Nat} (h : readPair cs = .ok low) :
    skipText 0 cs = skipText 6 cs := by
  obtain ⟨behind, hbackslash, h⟩ := Except.bind_eq_ok.1 h
  obtain ⟨rest, hletter, h⟩ := Except.bind_eq_ok.1 h
  obtain ⟨unit, hunit, -⟩ := Except.bind_eq_ok.1 h
  rw [readPairLetter_eq_ok hbackslash, readPairLetter_eq_ok hletter]
  simp [skipText, hunit]

/-- The skipper passes over what the reader takes for one character. -/
theorem skipText_of_readCodePoint {point : Char × Nat} (h : readCodePoint cs = .ok point) :
    skipText 0 ('\\' :: 'u' :: cs) = skipText (point.2 + 1) ('u' :: cs) := by
  obtain ⟨unit, hunit, h⟩ := Except.bind_eq_ok.1 h
  have hskip : skipText 0 ('\\' :: 'u' :: cs) = skipText 4 cs := by
    simp [skipText, hunit]
  rw [hskip]
  split at h
  · cases h
  · split at h
    · cases h
      rfl
    · obtain ⟨low, hlow, h⟩ := Except.bind_eq_ok.1 h
      have hlength : point.2 = 10 := congrArg Prod.snd (Except.ok.inj h).symm
      rw [hlength, skipText_drop 4, skipText_of_readPair hlow, skipText_drop 6, List.drop_drop,
        skipText_drop 11, List.drop_succ_cons]

theorem skipText_of_readEscape {escaped : Char} {length : Nat}
    (h : readEscape cs = .ok (escaped, length)) :
    skipText 0 ('\\' :: cs) = skipText length cs := by
  cases cs with
  | nil => cases h
  | cons c cs =>
    by_cases hu : c = 'u'
    · subst hu
      obtain ⟨point, hpoint, heq⟩ := Except.map_eq_ok.1 (show
        (readCodePoint cs).map (fun point => (point.1, point.2 + 1)) = .ok (escaped, length) from h)
      cases heq
      exact skipText_of_readCodePoint hpoint
    · -- the other escapes take one character
      have hone : length = 1 ∧ c ∈ ['"', '\\', '/', 'b', 'f', 'n', 'r', 't'] := by
        simp only [readEscape, hu, if_false] at h
        grind
      simp only [skipText, if_pos hone.2, hone.1]
      rfl

theorem skipText_char (hquote : c ≠ '"') (hbackslash : c ≠ '\\') (hcontrol : ¬c.toNat < 0x20) :
    skipText 0 (c :: cs) = skipText 0 cs := by
  rw [skipText.eq_def]
  simp [hquote, hbackslash, hcontrol]

/-- A string that is read is skipped up to the same place. -/
theorem skipText_of_readChars {taken : Nat} {text : List Char}
    (h : readChars taken cs = .ok (text, rest)) : skipText taken cs = .ok rest := by
  fun_induction readChars taken cs generalizing text rest with
  | case1 => cases h
  | case2 taken _ cs ih => exact ih h
  | case3 cs =>
    cases h
    rfl
  | case4 => cases h
  | case5 cs escaped length hescape _ ih =>
    obtain ⟨found, hfound, heq⟩ := Except.map_eq_ok.1 h
    cases heq
    rw [skipText_of_readEscape hescape]
    exact ih hfound
  | case6 => cases h
  | case7 c cs hquote hbackslash hcontrol ih =>
    obtain ⟨found, hfound, heq⟩ := Except.map_eq_ok.1 h
    cases heq
    rw [skipText_char hquote hbackslash hcontrol]
    exact ih hfound

theorem length_of_skipText {taken : Nat} (h : skipText taken cs = .ok rest) :
    rest.length < cs.length := by
  fun_induction skipText taken cs <;> grind

theorem skipText_of_readText {text : String} (h : readText cs = .ok (text, rest)) :
    skipText 0 cs = .ok rest := by
  obtain ⟨found, hfound, heq⟩ := Except.map_eq_ok.1 h
  cases heq
  exact skipText_of_readChars hfound

/-! ## Numbers -/

/-- Digits that were not gathered are passed over all the same. -/
theorem dropWhile_gather_rest (number : Nat) (cs : List Char) :
    (gather number cs).rest.dropWhile Char.isDigit = cs.dropWhile Char.isDigit := by
  fun_induction gather number cs with
  | case1 => rfl
  | case2 number c cs hfits more ih => rw [List.dropWhile_cons_of_pos hfits.1, ← ih]
  | case3 => rfl

/-- Where digits were gathered the text begins with one. -/
theorem length_dropWhile_of_gather (h : (gather number cs).count ≠ 0) :
    (cs.dropWhile Char.isDigit).length ≠ cs.length := by
  cases cs with
  | nil => exact absurd rfl h
  | cons c cs =>
    by_cases hc : c.isDigit = true
    · have hle := length_dropWhile_le Char.isDigit cs
      rw [List.dropWhile_cons_of_pos hc, List.length_cons]
      omega
    · simp [gather, hc] at h

theorem eq_of_readScaled {exponent : Int} {n : Number}
    (h : readScaled negative number exponent cs = .ok (n, rest)) : cs = rest := by
  rw [readScaled] at h
  split at h <;> cases h
  rfl

theorem eq_of_readPower {begin : Int} {down : Bool} {power : Nat} {n : Number}
    (h : readPower negative number begin down power cs = .ok (n, rest)) :
    cs.dropWhile Char.isDigit = rest := by
  induction cs generalizing power with
  | nil => exact eq_of_readScaled h
  | cons c cs ih =>
    rw [readPower] at h
    by_cases hc : c.isDigit = true
    · rw [List.dropWhile_cons_of_pos hc]
      rw [if_pos hc] at h
      split at h
      · exact ih h
      · split at h <;> cases h
        rfl
    · rw [List.dropWhile_cons_of_neg hc]
      rw [if_neg hc] at h
      exact eq_of_readScaled h

theorem skipExponent_of_readExponent {exponent : Int} {n : Number}
    (h : readExponent negative number exponent cs = .ok (n, rest)) :
    skipExponent cs = .ok rest := by
  have hdigits {down : Bool} {cs : List Char}
      (h : readExponent.firstDigit negative number exponent down cs = .ok (n, rest)) :
      ∃ c more, cs = c :: more ∧ c.isDigit = true ∧ more.dropWhile Char.isDigit = rest := by
    cases cs with
    | nil => cases h
    | cons c cs =>
      rw [readExponent.firstDigit] at h
      split at h
      · exact ⟨c, cs, rfl, ‹_›, eq_of_readPower h⟩
      · cases h
  rw [readExponent.eq_def] at h
  rw [skipExponent.eq_def]
  split at h <;>
  · obtain ⟨c, more, rfl, hc, rfl⟩ := hdigits h
    simp_all

/-- What may follow the digits of a fraction. -/
theorem skipTail_of_readFraction {exponent : Int} {n : Number}
    (h : readFraction negative number exponent cs = .ok (n, rest)) :
    skipTail ('.' :: cs) = .ok rest := by
  rw [readFraction.eq_def] at h
  simp only [dropWhile_gather_rest] at h
  split at h
  · split at h <;> cases h
  · rename_i hdigits
    have hlength : (cs.dropWhile Char.isDigit).length ≠ cs.length := fun heq =>
      length_dropWhile_of_gather (fun hcount => hdigits ⟨hcount, heq⟩) heq
    rw [skipTail]
    rw [readTail.eq_def] at h
    generalize cs.dropWhile Char.isDigit = tail at h hlength ⊢
    split at h
    · rw [List.length_cons] at hlength
      simp only [if_neg hlength]
      exact skipExponent_of_readExponent h
    · rw [List.length_cons] at hlength
      simp only [if_neg hlength]
      exact skipExponent_of_readExponent h
    · rename_i he hE
      obtain rfl := eq_of_readScaled h
      split <;> simp_all

theorem skipTail_of_readAfterWhole {n : Number}
    (h : readAfterWhole negative number extra cs = .ok (n, rest)) : skipTail cs = .ok rest := by
  rw [readAfterWhole.eq_def] at h
  split at h
  · exact skipTail_of_readFraction h
  · exact skipExponent_of_readExponent h
  · exact skipExponent_of_readExponent h
  · rename_i hpoint he hE
    have hend : cs = rest := by
      split at h
      · split at h <;> cases h
        rfl
      · exact eq_of_readScaled h
    rw [skipTail.eq_def]
    split
    · exact absurd rfl (hpoint _)
    · exact absurd rfl (he _)
    · exact absurd rfl (hE _)
    · rw [hend]

theorem skipNumber_of_readNumber {n : Number} (h : readNumber negative cs = .ok (n, rest)) :
    skipNumber cs = .ok rest := by
  rw [readNumber.eq_def] at h
  rw [skipNumber.eq_def]
  split at h
  · cases h
  · split at h
    · rename_i hzero
      simp only [if_pos hzero]
      split at h
      · have htail := skipTail_of_readAfterWhole h
        rwa [skipTail] at htail <;> simp
      · split at h
        · cases h
        · rename_i hdigit
          simp only [if_neg hdigit]
          exact skipTail_of_readAfterWhole h
    · rename_i hzero
      simp only [if_neg hzero]
      split at h
      · rename_i hdigit
        rw [if_pos hdigit, ← dropWhile_gather_rest (digitValue _)]
        exact skipTail_of_readAfterWhole h
      · cases h

/-! ## Scalars -/

theorem length_of_readWord {word : List Char} (h : readWord word cs = .ok rest) :
    rest.length ≤ cs.length := by
  fun_induction readWord word cs <;> grind

theorem length_of_skipExponent (h : skipExponent cs = .ok rest) : rest.length ≤ cs.length := by
  rw [skipExponent.eq_def] at h
  grind [length_dropWhile_le]

theorem length_of_skipTail (h : skipTail cs = .ok rest) : rest.length ≤ cs.length := by
  rw [skipTail.eq_def] at h
  grind [length_dropWhile_le, → length_of_skipExponent]

theorem length_of_skipNumber (h : skipNumber cs = .ok rest) : rest.length < cs.length := by
  rw [skipNumber.eq_def] at h
  grind [length_dropWhile_le, → length_of_skipTail]

theorem length_of_skipScalar (h : skipScalar cs = .ok rest) : rest.length < cs.length := by
  rw [skipScalar.eq_def] at h
  grind [→ length_of_readWord, → length_of_skipNumber, → length_of_skipText]

/-- A scalar that is read is skipped up to the same place. -/
theorem Finds.skipScalar {v : Json} (h : Finds budget levels c cs v rest) (hlist : c ≠ '[')
    (hobject : c ≠ '{') : skipScalar (c :: cs) = .ok rest := by
  cases h with
  | string h => exact skipText_of_readText h
  | array => exact absurd rfl hlist
  | object => exact absurd rfl hobject
  | null h => exact h
  | yes h => exact h
  | no h => exact h
  | negative h => exact skipNumber_of_readNumber h
  | digit hc h =>
    have hn := ne_of_isDigit hc (show Char.isDigit 'n' = false by decide)
    have ht := ne_of_isDigit hc (show Char.isDigit 't' = false by decide)
    have hf := ne_of_isDigit hc (show Char.isDigit 'f' = false by decide)
    have hminus := ne_of_isDigit hc (show Char.isDigit '-' = false by decide)
    rw [Json.skipScalar, if_neg hn, if_neg ht, if_neg hf, if_neg hminus, if_pos hc]
    exact skipNumber_of_readNumber h

/-! ## Lists and objects -/

/-- Whatever brackets are open, the skipper goes over one value and looks at what is behind it. The
steps that it takes are fewer than three for each character. -/
def GoesOver (cs rest : List Char) : Prop :=
  ∃ taken, taken + 1 + 3 * rest.length ≤ 3 * cs.length ∧ ∀ steps brackets,
    skipSteps (steps + taken) .value brackets cs = skipSteps steps .behind brackets rest

/-- How the skipper stands in a bracket in front of an entry: the first, or a further one. -/
def standing (first : Bool) : SkipState := if first then .opened else .behind

/-- The skipper goes over the remaining entries of a bracket and closes it. -/
def GoesOverEntries (bracket : Bracket) (first : Bool) (cs rest : List Char) : Prop :=
  ∃ taken, taken + 3 * rest.length ≤ 3 * cs.length ∧ ∀ steps brackets,
    skipSteps (steps + taken) (standing first) (bracket :: brackets) cs =
      skipSteps steps .behind brackets rest

theorem GoesOver.length_le (h : GoesOver cs rest) : rest.length ≤ cs.length := by
  obtain ⟨taken, htaken, -⟩ := h
  omega

theorem goesOver_of_skipScalar (hspace : skipSpace cs = c :: more) (hlist : c ≠ '[')
    (hobject : c ≠ '{') (h : skipScalar (c :: more) = .ok rest) : GoesOver cs rest := by
  have hlength := length_of_skipScalar h
  have hmore := length_of_skipSpace_cons hspace
  rw [List.length_cons] at hlength
  refine ⟨1, by omega, fun steps brackets => ?_⟩
  rw [skipSteps, hspace]
  simp only [if_neg hlist, if_neg hobject, h]

/-- A list or an object is gone over if its entries are. -/
theorem GoesOverEntries.goesOver {bracket : Bracket} (hspace : skipSpace cs = c :: more)
    (hopening : c = match bracket with | .list => '[' | .object => '{')
    (h : GoesOverEntries bracket true more rest) : GoesOver cs rest := by
  obtain ⟨taken, htaken, hsteps⟩ := h
  have hmore := length_of_skipSpace_cons hspace
  refine ⟨taken + 1, by omega, fun steps brackets => ?_⟩
  rw [← Nat.add_assoc, skipSteps, hspace]
  cases bracket with
  | list =>
    simp only [if_pos hopening]
    exact hsteps steps brackets
  | object =>
    have hlist : ¬c = '[' := by
      rw [hopening]
      decide
    simp only [if_neg hlist, if_pos hopening]
    exact hsteps steps brackets

theorem goesOverEntries_close {bracket : Bracket} (first : Bool)
    (hspace : skipSpace cs = bracket.closing :: rest) : GoesOverEntries bracket first cs rest := by
  have hrest := length_of_skipSpace_cons hspace
  refine ⟨1, by omega, fun steps brackets => ?_⟩
  cases first with
  | true => rw [standing, if_pos rfl, skipSteps, hspace]; simp
  | false => rw [standing, if_neg (by decide), skipSteps, hspace]; simp

/-- An entry and those behind it. A further entry has a comma in front. -/
theorem goesOverEntries_entry {bracket : Bracket} {first : Bool} {value : List Char}
    (hspace : skipSpace cs = c :: more) (hclosing : c ≠ bracket.closing)
    (hstart : if first then start = c :: more else c = ',' ∧ start = more)
    (hkey : skipKey bracket start = .ok value) (hlength : value.length ≤ start.length)
    (hvalue : GoesOver value behind) (hentries : GoesOverEntries bracket false behind rest) :
    GoesOverEntries bracket first cs rest := by
  obtain ⟨taken, htaken, hsteps⟩ := hvalue
  obtain ⟨further, hfurther, hrest⟩ := hentries
  have hmore := length_of_skipSpace_cons hspace
  have hlimit : start.length ≤ cs.length := by
    cases first with
    | true =>
      rw [if_pos rfl] at hstart
      rw [hstart]
      exact hmore
    | false =>
      rw [if_neg (by decide)] at hstart
      rw [hstart.2]
      exact hmore.le
  refine ⟨further + taken + 1, by omega, fun steps brackets => ?_⟩
  have hentry : skipSteps (steps + (further + taken) + 1) (standing first) (bracket :: brackets) cs =
      skipSteps (steps + (further + taken)) .value (bracket :: brackets) value := by
    cases first with
    | true =>
      rw [if_pos rfl] at hstart
      rw [hstart] at hkey
      rw [standing, if_pos rfl, skipSteps, hspace]
      simp only [if_neg hclosing, hkey]
    | false =>
      rw [if_neg (by decide)] at hstart
      rw [hstart.2] at hkey
      rw [standing, if_neg (by decide), skipSteps, hspace]
      simp only [if_neg hclosing, if_pos hstart.1, hkey]
  rw [← Nat.add_assoc, hentry, ← Nat.add_assoc, hsteps]
  exact hrest steps brackets

/-! ## Values -/

theorem nextItem_eq_closed {first : Bool} (h : nextItem first cs = .ok (.closed rest)) :
    skipSpace cs = ']' :: rest := by
  rw [nextItem.eq_def] at h
  grind

theorem nextItem_eq_entry {first : Bool} (h : nextItem first cs = .ok (.entry start)) :
    ∃ c more, skipSpace cs = c :: more ∧ c ≠ ']' ∧
      if first then start = c :: more else c = ',' ∧ start = skipSpace more := by
  rw [nextItem.eq_def] at h
  grind

theorem nextKey_eq_closed {first : Bool} (h : nextKey first cs = .ok (.closed rest)) :
    skipSpace cs = '}' :: rest := by
  rw [nextKey.eq_def] at h
  grind

theorem nextKey_eq_entry {first : Bool} (h : nextKey first cs = .ok (.entry start)) :
    ∃ c more, skipSpace cs = c :: more ∧ c ≠ '}' ∧
      if first then '"' :: start = c :: more else c = ',' ∧ '"' :: start = skipSpace more := by
  rw [nextKey.eq_def] at h
  grind

theorem length_of_readColon (h : readColon cs = .ok rest) : rest.length < cs.length := by
  rw [readColon.eq_def] at h
  grind [→ length_of_skipSpace_cons]

/-- A key and its colon are skipped. -/
theorem skipKey_of_readText {key : String} {value : List Char} (hspace : skipSpace cs = '"' :: start)
    (hkey : readText start = .ok (key, behind)) (hcolon : readColon behind = .ok value) :
    skipKey .object cs = .ok value ∧ value.length ≤ cs.length := by
  have hskip := skipText_of_readText hkey
  have hstart := length_of_skipSpace_cons hspace
  have hbehind := length_of_skipText hskip
  have hvalue := length_of_readColon hcolon
  refine ⟨?_, by omega⟩
  rw [skipKey, hspace]
  simp only [if_pos, hskip]
  exact hcolon

section Loops

variable (hvalue : ∀ ⦃cs v rest⦄, readValue budget levels cs = .ok (v, rest) → GoesOver cs rest)

include hvalue

/-- Items that are read are gone over, if values on their level are. -/
theorem ReadsItems.goesOverEntries {first : Bool} {items : List Json}
    (h : ReadsItems (readValue budget levels) first cs items rest) :
    GoesOverEntries .list first cs rest := by
  induction h with
  | closed hclosed => exact goesOverEntries_close _ (nextItem_eq_closed hclosed)
  | @entry first _ _ _ _ _ _ hnext hitem _ ih =>
    obtain ⟨c, more, hspace, hc, hstart⟩ := nextItem_eq_entry hnext
    cases first with
    | true =>
      rw [if_pos rfl] at hstart
      exact goesOverEntries_entry hspace hc hstart rfl le_rfl (hvalue hitem) ih
    | false =>
      rw [if_neg (by decide)] at hstart
      rw [hstart.2, readValue_skipSpace] at hitem
      exact goesOverEntries_entry hspace hc ⟨hstart.1, rfl⟩ rfl le_rfl (hvalue hitem) ih

/-- Members that are read are gone over, if values on their level are. -/
theorem ReadsMembers.goesOverEntries {first : Bool} {sofar members : List (String × Json)}
    (h : ReadsMembers (readEntry budget levels) first sofar cs members rest) :
    GoesOverEntries .object first cs rest := by
  induction h with
  | closed hclosed => exact goesOverEntries_close _ (nextKey_eq_closed hclosed)
  | @entry first _ _ _ _ _ _ _ _ _ hnext hkey hmember _ ih =>
    obtain ⟨behind, hcolon, hmember⟩ := Except.bind_eq_ok.1 hmember
    obtain ⟨found, hfound, hmember⟩ := Except.bind_eq_ok.1 hmember
    cases hmember
    obtain ⟨c, more, hspace, hc, hstart⟩ := nextKey_eq_entry hnext
    cases first with
    | true =>
      rw [if_pos rfl] at hstart
      have hskip := skipKey_of_readText
        ((skipSpace_of_cons hspace).trans hstart.symm) hkey hcolon
      exact goesOverEntries_entry hspace hc rfl hskip.1 hskip.2 (hvalue hfound) ih
    | false =>
      rw [if_neg (by decide)] at hstart
      have hskip := skipKey_of_readText hstart.2.symm hkey hcolon
      exact goesOverEntries_entry hspace hc ⟨hstart.1, rfl⟩ hskip.1 hskip.2 (hvalue hfound) ih

end Loops

/-- The skipper goes over what the reader takes for a value. -/
theorem goesOver_of_readValue {v : Json} (h : readValue budget levels cs = .ok (v, rest)) :
    GoesOver cs rest := by
  induction levels using Nat.strong_induction_on generalizing cs v rest with
  | _ levels ih =>
    obtain ⟨c, more, hspace, hfinds⟩ := exists_finds h
    by_cases hlist : c = '['
    · subst hlist
      cases hfinds with
      | array hitems =>
        have hentries := (readsItems_of_readItems hitems).goesOverEntries fun _ _ _ =>
          ih _ (Nat.lt_succ_self _)
        exact hentries.goesOver hspace rfl
      | digit hc => cases hc
    by_cases hobject : c = '{'
    · subst hobject
      cases hfinds with
      | object hmembers =>
        have hentries := (readsMembers_of_readMembers hmembers).goesOverEntries fun _ _ _ =>
          ih _ (Nat.lt_succ_self _)
        exact hentries.goesOver hspace rfl
      | digit hc => cases hc
    · exact goesOver_of_skipScalar hspace hlist hobject (hfinds.skipScalar hlist hobject)

theorem length_of_skipKey {bracket : Bracket} (h : skipKey bracket cs = .ok rest) :
    rest.length ≤ cs.length := by
  cases bracket with
  | list =>
    cases h
    exact le_rfl
  | object =>
    rw [skipKey] at h
    split at h
    · cases h
    · rename_i hspace
      split at h
      · obtain ⟨behind, hkey, hcolon⟩ := Except.bind_eq_ok.1 h
        have hstart := length_of_skipSpace_cons hspace
        have hbehind := length_of_skipText hkey
        have hrest := length_of_readColon hcolon
        omega
      · cases h

theorem length_of_skipSteps {steps : Nat} {state : SkipState} {brackets : List Bracket}
    (h : skipSteps steps state brackets cs = .ok rest) : rest.length ≤ cs.length := by
  fun_induction skipSteps steps state brackets cs <;>
    grind [→ length_of_skipSpace_cons, → length_of_skipScalar, → length_of_skipKey]

/-- A value that is read is skipped, with the same left, where the budget suffices for the text. -/
theorem skipValue_of_readValue {v : Json} {limit : Nat} (hlimit : cs.length < limit)
    (h : readValue budget levels cs = .ok (v, rest)) : skipValue limit cs = .ok ((), rest) := by
  obtain ⟨taken, htaken, hsteps⟩ := goesOver_of_readValue h
  obtain ⟨left, hleft⟩ : ∃ left, 3 * limit = left + 1 + taken := ⟨3 * limit - taken - 1, by omega⟩
  rw [skipValue, hleft, hsteps]
  rfl

end RecordQuery.Json
