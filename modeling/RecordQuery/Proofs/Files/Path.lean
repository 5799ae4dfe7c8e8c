/-
RecordQuery.Proofs.Files.Path — the parts of a path as names.

A path is cut into its parent and its last name in the text alone, and walked
name by name. Here both are brought together: the names of the parent are the
first of the path's own names, and a path with another extension differs from it
in the last name only.

Main statements:
* `parent?_spec`, `ancestors_isPrefix` — the names of the directories above;
* `NamesFile.exists_withExtension` — the names of a path with another extension;
* `NamesFile.withExtension_ne` — it is another path, if the extension is another.
-/
import RecordQuery.Files.Path

namespace RecordQuery.Path

variable {front name body reversed first : List Char} {path above : Path}

/-! ## Names -/

/-- The pieces of a text that are not empty. -/
def namesOf (cs : List Char) : List String :=
  ((pieces cs).filter fun piece => !piece.isEmpty).map String.ofList

theorem names_eq (path : Path) : path.names = namesOf path.text.toList := rfl

theorem pieces_ne_nil (cs : List Char) : pieces cs ≠ [] := by
  cases cs with
  | nil => simp [pieces]
  | cons c cs =>
    rw [pieces]
    split
    · simp
    · split <;> simp

theorem pieces_append_slash (front cs : List Char) :
    pieces (front ++ '/' :: cs) = pieces front ++ pieces cs := by
  induction front with
  | nil => simp [pieces]
  | cons c front ih =>
    by_cases hc : c = '/'
    · simp [pieces, hc, ih]
    · cases hfront : pieces front with
      | nil => exact absurd hfront (pieces_ne_nil front)
      | cons piece more => simp [pieces, hc, ih, hfront]

theorem pieces_of_notMem (h : '/' ∉ name) : pieces name = [name] := by
  induction name with
  | nil => rfl
  | cons c name ih =>
    rw [List.mem_cons, not_or] at h
    simp [pieces, ih h.2, Ne.symm h.1]

@[simp] theorem namesOf_nil : namesOf [] = [] := rfl

theorem namesOf_append_slash (front cs : List Char) :
    namesOf (front ++ '/' :: cs) = namesOf front ++ namesOf cs := by
  simp [namesOf, pieces_append_slash]

@[simp] theorem namesOf_slash (cs : List Char) : namesOf ('/' :: cs) = namesOf cs :=
  namesOf_append_slash [] cs

theorem namesOf_of_notMem (hne : name ≠ []) (h : '/' ∉ name) :
    namesOf name = [String.ofList name] := by
  simp [namesOf, pieces_of_notMem h, hne]

/-! ## The text before a name -/

/-- What may stand before a name: nothing, or a text that ends in a slash. -/
def IsFront (front : List Char) : Prop := front = [] ∨ front.getLast? = some '/'

theorem IsFront.exists_eq (h : IsFront front) : front = [] ∨ ∃ above, front = above ++ ['/'] := by
  refine h.imp_right fun hlast => ?_
  obtain ⟨above, hfront⟩ := List.getLast?_eq_some_iff.1 hlast
  exact ⟨above, hfront⟩

theorem IsFront.namesOf_append (h : IsFront front) (cs : List Char) :
    namesOf (front ++ cs) = namesOf front ++ namesOf cs := by
  rcases h.exists_eq with rfl | ⟨above, rfl⟩
  · rfl
  · rw [List.append_assoc]
    show namesOf (above ++ '/' :: cs) = namesOf (above ++ '/' :: []) ++ namesOf cs
    simp [namesOf_append_slash]

/-- A last piece of a path that is not left out of it. -/
structure IsPiece (name : List Char) : Prop where
  ne_nil : name ≠ []
  no_slash : '/' ∉ name
  ne_dot : name ≠ ['.']

/-- The path ends in a name, not in dots or a slash. -/
def NamesFile (path : Path) : Prop :=
  path.endsInSlash = false ∧ ∃ name ∈ path.names.getLast?, name ≠ "." ∧ name ≠ ".."

instance (path : Path) : Decidable path.NamesFile := by
  unfold NamesFile
  infer_instance

theorem head?_dropWhile_inside (cs : List Char) :
    cs.dropWhile (fun c => c != '/') = [] ∨
      ∃ more, cs.dropWhile (fun c => c != '/') = '/' :: more := by
  cases hrest : cs.dropWhile fun c => c != '/' with
  | nil => exact .inl rfl
  | cons c more =>
    have hnot := List.head?_dropWhile_not (fun c => c != '/') cs
    rw [hrest] at hnot
    exact .inr ⟨more, by simpa using hnot⟩

theorem notMem_takeWhile_inside (cs : List Char) : '/' ∉ cs.takeWhile fun c => c != '/' := by
  intro hmem
  have := List.all_eq_true.1 List.all_takeWhile '/' hmem
  simp at this

theorem NamesFile.exists_text (h : path.NamesFile) :
    ∃ front name, path.text.toList = front ++ name ∧ IsFront front ∧ IsPiece name ∧
      name ≠ ['.', '.'] := by
  obtain ⟨hslash, last, hlast, hdot, hup⟩ := h
  let reversed := path.text.toList.reverse
  let name := (reversed.takeWhile fun c => c != '/').reverse
  let front := (reversed.dropWhile fun c => c != '/').reverse
  have htext : path.text.toList = front ++ name := by
    rw [← List.reverse_append, List.takeWhile_append_dropWhile, List.reverse_reverse]
  have hfront : IsFront front := by
    unfold IsFront
    rw [List.reverse_eq_nil_iff, List.getLast?_reverse]
    rcases head?_dropWhile_inside reversed with hnil | ⟨more, hmore⟩
    · exact .inl hnil
    · exact .inr (by rw [hmore]; rfl)
  have hno : '/' ∉ name := fun hmem => notMem_takeWhile_inside _ (List.mem_reverse.1 hmem)
  have hne : name ≠ [] := by
    intro hnil
    rw [hnil, List.append_nil] at htext
    rcases hfront with hfront | hfront
    · rw [names_eq, htext, hfront] at hlast
      cases hlast
    · rw [endsInSlash, htext, hfront] at hslash
      cases hslash
  have hname : last = String.ofList name := by
    rw [names_eq, htext, hfront.namesOf_append, namesOf_of_notMem hne hno,
      List.getLast?_concat] at hlast
    exact (Option.some.inj hlast).symm
  refine ⟨front, name, htext, hfront, ⟨hne, hno, ?_⟩, ?_⟩
  · rintro hname'
    exact hdot (by rw [hname, hname'])
  · rintro hname'
    exact hup (by rw [hname, hname'])

/-! ## The parent -/

theorem start_cases (cs : List Char) : ∃ first body, cs = first ++ body ∧ start cs = first ∧
    (first = [] ∨ first = ['/'] ∨ first = ['.'] ∧ (body = [] ∨ body.head? = some '/')) := by
  unfold start
  split
  · rename_i cs
    exact ⟨['/'], cs, rfl, rfl, .inr (.inl rfl)⟩
  · exact ⟨['.'], [], rfl, rfl, .inr (.inr ⟨rfl, .inl rfl⟩)⟩
  · rename_i cs
    exact ⟨['.'], '/' :: cs, rfl, rfl, .inr (.inr ⟨rfl, .inr rfl⟩)⟩
  · exact ⟨[], cs, rfl, rfl, .inl rfl⟩

/-- What may stand, reversed, behind the start of a text: behind a dot nothing but a slash. -/
def Follows (first reversed : List Char) : Prop :=
  first = [] ∨ first = ['/'] ∨ first = ['.'] ∧ IsFront reversed

/-- The names of a text that is given by its start and the rest of it, reversed. -/
def namesBehind (first reversed : List Char) : List String := namesOf (first ++ reversed.reverse)

theorem IsFront.of_suffix {rest : List Char} (h : IsFront reversed) (hsuffix : rest <:+ reversed) :
    IsFront rest := by
  obtain ⟨before, rfl⟩ := hsuffix
  cases rest with
  | nil => exact .inl rfl
  | cons c rest =>
    rcases h with hnil | hlast
    · simp at hnil
    · rw [List.getLast?_append, List.getLast?_cons, Option.some_or] at hlast
      exact .inr (List.getLast?_cons.trans hlast)

theorem Follows.of_suffix {rest : List Char} (h : Follows first reversed)
    (hsuffix : rest <:+ reversed) : Follows first rest := by
  rcases h with h | h | ⟨hfirst, h⟩
  · exact .inl h
  · exact .inr (.inl h)
  · exact .inr (.inr ⟨hfirst, h.of_suffix hsuffix⟩)

theorem namesBehind_slash (first reversed : List Char) :
    namesBehind first ('/' :: reversed) = namesBehind first reversed := by
  unfold namesBehind
  rw [List.reverse_cons, ← List.append_assoc, namesOf_append_slash, namesOf_nil, List.append_nil]

theorem namesBehind_piece (hne : name ≠ []) (hno : '/' ∉ name) :
    namesBehind first (name.reverse ++ '/' :: reversed) =
      namesBehind first reversed ++ [String.ofList name] := by
  unfold namesBehind
  rw [List.reverse_append, List.reverse_reverse, List.reverse_cons, List.append_assoc,
    List.singleton_append, ← List.append_assoc, namesOf_append_slash, namesOf_of_notMem hne hno]

theorem namesBehind_firstPiece (hne : name ≠ []) (hno : '/' ∉ name)
    (h : Follows first name.reverse) :
    namesBehind first name.reverse = namesBehind first [] ++ [String.ofList name] := by
  unfold namesBehind
  rw [List.reverse_reverse, List.reverse_nil, List.append_nil]
  rcases h with rfl | rfl | ⟨-, hfront⟩
  · exact namesOf_of_notMem hne hno
  · exact (namesOf_slash name).trans (namesOf_of_notMem hne hno)
  · rcases hfront with hnil | hlast
    · exact absurd (List.reverse_eq_nil_iff.1 hnil) hne
    · rw [List.getLast?_reverse] at hlast
      exact absurd (List.mem_of_mem_head? hlast) hno

/-- Without its last piece a text has all names but one. -/
theorem exists_namesBehind_withoutLast (hne : reversed ≠ []) (hhead : reversed.head? ≠ some '/')
    (h : Follows first reversed) :
    ∃ last, namesBehind first reversed = namesBehind first (withoutLast reversed) ++ [last] := by
  let name := (reversed.takeWhile fun c => c != '/').reverse
  have hno : '/' ∉ name := fun hmem => notMem_takeWhile_inside _ (List.mem_reverse.1 hmem)
  have hname : name ≠ [] := by
    cases reversed with
    | nil => exact absurd rfl hne
    | cons c more =>
      have hc : c ≠ '/' := fun hc => hhead (congrArg some hc)
      simp [name, hc]
  have hreversed : reversed = name.reverse ++ reversed.dropWhile fun c => c != '/' := by
    rw [List.reverse_reverse, List.takeWhile_append_dropWhile]
  refine ⟨String.ofList name, ?_⟩
  unfold withoutLast
  rcases head?_dropWhile_inside reversed with hnil | ⟨more, hmore⟩
  · rw [hnil, List.append_nil] at hreversed
    rw [hnil, List.drop_nil, hreversed]
    exact namesBehind_firstPiece hname hno (hreversed ▸ h)
  · rw [hmore] at hreversed
    rw [hmore, hreversed]
    exact namesBehind_piece hname hno

theorem fromLastName_suffix (reversed : List Char) : fromLastName reversed <:+ reversed := by
  fun_induction fromLastName reversed with
  | case1 => exact List.suffix_refl _
  | case2 => exact List.nil_suffix
  | case3 reversed ih => exact ih.trans ⟨['.', '/'], rfl⟩
  | case4 reversed ih => exact ih.trans (List.suffix_cons '/' reversed)
  | case5 reversed => exact List.suffix_refl _

theorem head?_fromLastName (reversed : List Char) : (fromLastName reversed).head? ≠ some '/' := by
  fun_induction fromLastName reversed with
  | case1 => simp
  | case2 => simp
  | case3 reversed ih => exact ih
  | case4 reversed ih => exact ih
  | case5 reversed _ _ _ hslash =>
    intro hhead
    cases reversed with
    | nil => cases hhead
    | cons c more => exact hslash more (by rw [Option.some.inj hhead])

/-- Slashes and dots at the end of a text are no names, or stand behind all others. -/
theorem namesBehind_fromLastName (h : Follows first reversed) :
    namesBehind first (fromLastName reversed) <+: namesBehind first reversed := by
  fun_induction fromLastName reversed with
  | case1 => exact List.prefix_refl _
  | case2 =>
    exact ⟨_, (namesBehind_firstPiece (List.cons_ne_nil '.' []) (by simp) h).symm⟩
  | case3 reversed ih =>
    have hdot : namesBehind first ('.' :: '/' :: reversed) = namesBehind first reversed ++ ["."] :=
      namesBehind_piece (List.cons_ne_nil '.' []) (by simp)
    rw [hdot]
    exact (ih (h.of_suffix ⟨['.', '/'], rfl⟩)).trans (List.prefix_append _ _)
  | case4 reversed ih =>
    rw [namesBehind_slash]
    exact ih (h.of_suffix (List.suffix_cons '/' reversed))
  | case5 reversed => exact List.prefix_refl _

theorem prefix_dropLast {α : Type} {xs ys : List α} {last : α} (h : xs ++ [last] <+: ys) :
    xs <+: ys.dropLast := by
  obtain ⟨more, rfl⟩ := h
  rw [List.append_assoc, List.dropLast_append_of_ne_nil (by simp)]
  exact List.prefix_append _ _

/-- The parent of a path is a part of its text and has the first of its names, not the last one. -/
theorem parent?_spec (h : path.parent? = some above) :
    above.text.toList <+: path.text.toList ∧ above.names <+: path.names.dropLast := by
  obtain ⟨first, body, htext, hstart, hfirst⟩ := start_cases path.text.toList
  have hfollows : Follows first body.reverse := by
    rcases hfirst with hfirst | hfirst | ⟨hfirst, hbody⟩
    · exact .inl hfirst
    · exact .inr (.inl hfirst)
    · refine .inr (.inr ⟨hfirst, ?_⟩)
      rwa [IsFront, List.reverse_eq_nil_iff, List.getLast?_reverse]
  have hreversed : path.reversedBody = fromLastName body.reverse := by
    rw [reversedBody, hstart, htext, List.drop_left]
  rw [parent?, hstart, hreversed] at h
  have hsuffix := fromLastName_suffix body.reverse
  have hnames := namesBehind_fromLastName hfollows
  have hhead := head?_fromLastName body.reverse
  generalize fromLastName body.reverse = inner at h hsuffix hnames hhead
  cases inner with
  | nil =>
    change (if first = ['.'] then some ⟨""⟩ else none) = some above at h
    split at h
    · cases h
      exact ⟨List.nil_prefix, List.nil_prefix⟩
    · cases h
  | cons c more =>
    cases h
    have hinner : withoutLast (c :: more) <:+ body.reverse :=
      ((List.drop_suffix _ _).trans (List.dropWhile_suffix _)).trans hsuffix
    obtain ⟨last, hlast⟩ := exists_namesBehind_withoutLast (List.cons_ne_nil c more) hhead
      (hfollows.of_suffix hsuffix)
    have hpath : path.names = namesBehind first body.reverse := by
      rw [names_eq, htext, namesBehind, List.reverse_reverse]
    rw [names_eq, String.toList_ofList, hpath]
    constructor
    · have := ((fromLastName_suffix (withoutLast (c :: more))).trans hinner).reverse
      rw [List.reverse_reverse] at this
      rw [htext]
      exact (List.prefix_append_right_inj first).2 this
    · rw [hlast] at hnames
      exact (namesBehind_fromLastName (hfollows.of_suffix hinner)).trans (prefix_dropLast hnames)

theorem parent?_isPrefix (h : path.parent? = some above) :
    above.text.toList <+: path.text.toList ∧ above.names <+: path.names :=
  (parent?_spec h).imp id fun hnames => hnames.trans (List.dropLast_prefix _)

/-- All directories above a path are parts of its text and have the first of its names. -/
theorem ancestors_isPrefix (h : above ∈ path.ancestors) :
    above.text.toList <+: path.text.toList ∧ above.names <+: path.names := by
  unfold ancestors at h
  generalize path.text.toList.length + 1 = bound at h
  induction bound generalizing path with
  | zero => cases h
  | succ bound ih =>
    rcases List.mem_cons.1 h with rfl | h
    · exact ⟨List.prefix_refl _, List.prefix_refl _⟩
    · cases hparent : path.parent? with
      | none => simp [hparent] at h
      | some parent =>
        simp only [hparent, Option.map_some, Option.getD_some] at h
        have hfirst := parent?_isPrefix hparent
        have hrest := ih h
        exact ⟨hrest.1.trans hfirst.1, hrest.2.trans hfirst.2⟩

/-! ## The last name -/

theorem IsPiece.start_eq_nil (h : IsPiece name) : start name = [] := by
  unfold start
  split
  · exact absurd List.mem_cons_self h.no_slash
  · exact absurd rfl h.ne_dot
  · exact absurd (List.mem_cons_of_mem _ List.mem_cons_self) h.no_slash
  · rfl

/-- The start of a text is the same whatever its last name is. -/
theorem exists_front_start (h : IsFront front) :
    ∃ first body, front = first ++ body ∧ IsFront body ∧
      ∀ name, IsPiece name → start (front ++ name) = first := by
  cases front with
  | nil => exact ⟨[], [], rfl, h, fun name hname => hname.start_eq_nil⟩
  | cons c rest =>
    have hrest : IsFront rest := h.of_suffix (List.suffix_cons c rest)
    by_cases hslash : c = '/'
    · subst hslash
      exact ⟨['/'], rest, rfl, hrest, fun _ _ => rfl⟩
    by_cases hdot : c = '.'
    · subst hdot
      cases rest with
      | nil => simp [IsFront] at h
      | cons d rest =>
        by_cases hd : d = '/'
        · subst hd
          exact ⟨['.'], '/' :: rest, rfl, hrest, fun _ _ => rfl⟩
        · exact ⟨[], '.' :: d :: rest, rfl, h, fun _ _ => by simp [start, hd]⟩
    · exact ⟨[], c :: rest, rfl, h, fun _ _ => by simp [start, hslash, hdot]⟩

/-- A last name is not left out. -/
theorem IsPiece.fromLastName_eq (hname : IsPiece name) (rest : List Char) :
    fromLastName (name.reverse ++ rest) = name.reverse ++ rest := by
  have hno : '/' ∉ name.reverse := fun hmem => hname.no_slash (List.mem_reverse.1 hmem)
  have hdot : name.reverse ≠ ['.'] := fun h =>
    hname.ne_dot (by rw [← List.reverse_reverse name, h]; rfl)
  cases hreversed : name.reverse with
  | nil => exact absurd (List.reverse_eq_nil_iff.1 hreversed) hname.ne_nil
  | cons c more =>
    rw [hreversed, List.mem_cons, not_or] at hno
    rw [hreversed] at hdot
    rw [List.cons_append]
    by_cases hc : c = '.'
    · subst hc
      cases more with
      | nil => exact absurd rfl hdot
      | cons d more =>
        have hd : d ≠ '/' := fun hd => hno.2 (hd ▸ List.mem_cons_self)
        simp [fromLastName, hd]
    · simp [fromLastName, hc, Ne.symm hno.1]

theorem reversedBody_eq (htext : path.text.toList = front ++ name) (hfront : IsFront front)
    (hname : IsPiece name) :
    ∃ first body, front = first ++ body ∧ IsFront body ∧ start path.text.toList = first ∧
      path.reversedBody = name.reverse ++ body.reverse := by
  obtain ⟨first, body, rfl, hbody, hstart⟩ := exists_front_start hfront
  refine ⟨first, body, rfl, hbody, ?_, ?_⟩
  · rw [htext, hstart name hname]
  · show fromLastName (path.text.toList.drop (start path.text.toList).length).reverse = _
    rw [htext, hstart name hname, List.append_assoc, List.drop_left, List.reverse_append]
    exact hname.fromLastName_eq _

theorem takeWhile_piece (hname : IsPiece name) (hbody : IsFront body) :
    (name.reverse ++ body.reverse).takeWhile (fun c => c != '/') = name.reverse := by
  have hinside : ∀ c ∈ name.reverse, (c != '/') = true := by
    intro c hc
    rw [bne_iff_ne]
    rintro rfl
    exact hname.no_slash (List.mem_reverse.1 hc)
  have hrest : body.reverse.takeWhile (fun c => c != '/') = [] := by
    rcases hbody.exists_eq with rfl | ⟨above, rfl⟩
    · rfl
    · simp
  rw [List.takeWhile_append_of_pos hinside, hrest, List.append_nil]

theorem fileName?_eq (htext : path.text.toList = front ++ name) (hfront : IsFront front)
    (hname : IsPiece name) (hup : name ≠ ['.', '.']) : path.fileName? = some name := by
  obtain ⟨first, body, -, hbody, -, hreversed⟩ := reversedBody_eq htext hfront hname
  unfold fileName?
  rw [hreversed, takeWhile_piece hname hbody, List.reverse_reverse]
  split
  · exact absurd rfl hname.ne_nil
  · exact absurd rfl hup
  · rfl

theorem fileName?_up (htext : path.text.toList = front ++ ['.', '.']) (hfront : IsFront front) :
    path.fileName? = none := by
  have hname : IsPiece ['.', '.'] := ⟨by simp, by simp, by simp⟩
  obtain ⟨first, body, -, hbody, -, hreversed⟩ := reversedBody_eq htext hfront hname
  unfold fileName?
  rw [hreversed, takeWhile_piece hname hbody]
  rfl

/-! ## The extension -/

theorem stem_ne_nil (hne : name ≠ []) : stem name ≠ [] := by
  unfold stem
  split
  · exact hne
  · rename_i hrest
    intro hnil
    exact hrest (List.reverse_eq_nil_iff.1 hnil)

theorem stem_isPrefix (name : List Char) : stem name <+: name := by
  unfold stem
  split
  · exact List.prefix_refl _
  · have hsuffix := (List.drop_suffix 1 _).trans
      (List.dropWhile_suffix (fun c => c != '.') (l := name.reverse))
    rw [← List.reverse_prefix, List.reverse_reverse] at hsuffix
    exact hsuffix

theorem putExtension_text (htext : path.text.toList = front ++ name) (hfront : IsFront front)
    (hname : IsPiece name) (hup : name ≠ ['.', '.']) (extension : String) :
    (path.putExtension extension).text.toList =
      front ++ (stem name ++ '.' :: extension.toList) := by
  obtain ⟨first, body, hbefore, hbody, hstart, hreversed⟩ := reversedBody_eq htext hfront hname
  unfold putExtension
  rw [fileName?_eq htext hfront hname hup]
  simp only [String.toList_ofList]
  rw [hstart, hreversed, ← List.length_reverse, List.drop_left, List.reverse_reverse, ← hbefore,
    List.append_assoc]

/-- The last name with as much of its extension cut off as there is. -/
theorem isPiece_take_extension (hname : IsPiece name) :
    IsPiece (name.take (name.length - extensionLength name)) := by
  have hstem : 0 < (stem name).length := List.length_pos_iff.2 (stem_ne_nil hname.ne_nil)
  have hlength : 0 < name.length := List.length_pos_iff.2 hname.ne_nil
  refine ⟨?_, fun hmem => hname.no_slash (List.mem_of_mem_take hmem), ?_⟩
  · intro hnil
    have := congrArg List.length hnil
    rw [List.length_take, List.length_nil, extensionLength] at this
    omega
  · intro hdot
    have hone := congrArg List.length hdot
    rw [List.length_take, List.length_singleton, extensionLength] at hone
    have hall : name.length ≤ name.length - extensionLength name := by
      rw [extensionLength]
      omega
    exact hname.ne_dot ((List.take_of_length_le hall).symm.trans hdot)

/-- The last name of a path with another extension: the stem with the extension behind it, or two
dots, if these remain after the old extension was cut off. -/
theorem withExtension_text (htext : path.text.toList = front ++ name) (hfront : IsFront front)
    (hname : IsPiece name) (hup : name ≠ ['.', '.']) (extension : String) :
    (path.withExtension extension).text.toList = front ++ ['.', '.'] ∨
      ∃ kept, IsPiece kept ∧ (path.withExtension extension).text.toList =
        front ++ (stem kept ++ '.' :: extension.toList) := by
  have hcut := isPiece_take_extension hname
  have htake : path.text.toList.take (path.text.toList.length - extensionLength name) =
      front ++ name.take (name.length - extensionLength name) := by
    have hle : extensionLength name ≤ name.length := by
      rw [extensionLength]
      omega
    rw [htext, List.length_append, Nat.add_sub_assoc hle, List.take_length_add_append]
  unfold withExtension
  rw [fileName?_eq htext hfront hname hup]
  simp only [htake]
  generalize name.take (name.length - extensionLength name) = kept at hcut
  have hkept : (Path.mk (String.ofList (front ++ kept))).text.toList = front ++ kept :=
    String.toList_ofList
  by_cases hkeptUp : kept = ['.', '.']
  · left
    subst hkeptUp
    unfold putExtension
    rw [fileName?_up hkept hfront, hkept]
  · exact .inr ⟨kept, hcut, putExtension_text hkept hfront hcut hkeptUp extension⟩

/-- A path with another extension differs from it in the last name only. -/
theorem exists_withExtension_text (htext : path.text.toList = front ++ name) (hfront : IsFront front)
    (hname : IsPiece name) (hup : name ≠ ['.', '.']) {extension : String}
    (hextension : '/' ∉ extension.toList) :
    ∃ other, (path.withExtension extension).text.toList = front ++ other ∧ other ≠ [] ∧
      '/' ∉ other := by
  rcases withExtension_text htext hfront hname hup extension with hother | ⟨kept, hkept, hother⟩
  · exact ⟨_, hother, by simp, by decide⟩
  · refine ⟨_, hother, by simp, ?_⟩
    simp only [List.mem_append, List.mem_cons, not_or]
    exact ⟨fun hmem => hkept.no_slash ((stem_isPrefix kept).mem hmem), by decide, hextension⟩

/-- What stands behind the last dot of the last name. A dot that stands first begins no
extension. -/
def extension? (path : Path) : Option String :=
  path.fileName?.bind fun name =>
    if stem name = name then none else some (.ofList (name.drop ((stem name).length + 1)))

theorem stem_append {base extension : List Char} (hbase : base ≠ []) (hdot : '.' ∉ extension) :
    stem (base ++ '.' :: extension) = base := by
  have hinside : ∀ c ∈ extension.reverse, (c != '.') = true := by
    intro c hc
    rw [bne_iff_ne]
    rintro rfl
    exact hdot (List.mem_reverse.1 hc)
  have hrest : ((base ++ '.' :: extension).reverse.dropWhile fun c => c != '.').drop 1 =
      base.reverse := by
    rw [List.reverse_append, List.reverse_cons, List.append_assoc,
      List.dropWhile_append_of_pos hinside]
    simp
  unfold stem
  rw [hrest]
  split
  · rename_i hnil
    exact absurd (List.reverse_eq_nil_iff.1 hnil) hbase
  · rw [List.reverse_reverse]

/-- A path is another one with an extension that it does not have. -/
theorem NamesFile.withExtension_ne (h : path.NamesFile) {extension : String}
    (hdot : '.' ∉ extension.toList) (hextension : path.extension? ≠ some extension) :
    path.withExtension extension ≠ path := by
  obtain ⟨front, name, htext, hfront, hname, hup⟩ := h.exists_text
  intro hsame
  rcases withExtension_text htext hfront hname hup extension with hother | ⟨kept, hkept, hother⟩
  · rw [hsame, htext] at hother
    exact hup (List.append_cancel_left hother)
  · rw [hsame, htext] at hother
    obtain rfl := List.append_cancel_left hother
    refine hextension ?_
    have hstem := stem_append (stem_ne_nil hkept.ne_nil) hdot
    rw [extension?, fileName?_eq htext hfront hname hup, Option.bind_some, hstem]
    simp

/-- A part of a path begins where the path does. -/
theorem isAbsolute_of_isPrefix (hne : above.text ≠ "") (h : above.text.toList <+: path.text.toList) :
    above.isAbsolute = path.isAbsolute := by
  unfold isAbsolute
  obtain ⟨more, hmore⟩ := h
  rw [← hmore]
  cases habove : above.text.toList with
  | nil => exact absurd (String.toList_injective habove) hne
  | cons c rest => rfl

theorem isAbsolute_eq_of_front {other : Path} {cs : List Char}
    (htext : path.text.toList = front ++ name) (hother : other.text.toList = front ++ cs)
    (hno : '/' ∉ name) (hno' : '/' ∉ cs) : other.isAbsolute = path.isAbsolute := by
  have hhead : ∀ name : List Char, '/' ∉ name → (name.head? == some '/') = false := by
    intro name hno
    rw [beq_eq_false_iff_ne]
    exact fun hhead => hno (List.mem_of_mem_head? hhead)
  unfold isAbsolute
  rw [htext, hother]
  cases front with
  | nil => rw [List.nil_append, List.nil_append, hhead name hno, hhead cs hno']
  | cons c front => rfl

/-- The names of a path with another extension differ in the last one, if the path differs. -/
theorem NamesFile.exists_withExtension (h : path.NamesFile) {extension : String}
    (hextension : '/' ∉ extension.toList) :
    ∃ above name other, path.names = above ++ [name] ∧
      (path.withExtension extension).names = above ++ [other] ∧
      (path.withExtension extension).isAbsolute = path.isAbsolute ∧
      (other = name → path.withExtension extension = path) := by
  obtain ⟨front, name, htext, hfront, hname, hup⟩ := h.exists_text
  obtain ⟨other, hother, hne, hno⟩ := exists_withExtension_text htext hfront hname hup hextension
  refine ⟨namesOf front, .ofList name, .ofList other, ?_, ?_, ?_, ?_⟩
  · rw [names_eq, htext, hfront.namesOf_append, namesOf_of_notMem hname.ne_nil hname.no_slash]
  · rw [names_eq, hother, hfront.namesOf_append, namesOf_of_notMem hne hno]
  · exact isAbsolute_eq_of_front htext hother hname.no_slash hno
  · intro heq
    have hchars : (path.withExtension extension).text.toList = path.text.toList := by
      rw [hother, htext, String.ofList_injective heq]
    cases path
    exact congrArg Path.mk (String.toList_injective hchars)

end RecordQuery.Path
