/-
RecordQuery.Proofs.Query.Strict — what the strict mode refuses.

A node of a tree is reached from the root by the numbers of the children on the
way. Depth first, a node comes before all that is behind it, and what is behind
one child before what is behind the next: that is the order of these lists of
numbers as words. The strict mode refuses a tree if some node has a name that is
not supported, and it names the first such node in this order. Otherwise it
changes nothing. The explanation of a query says the same in advance, and a
request is refused for the same reason before its table and its cursor are
looked at.

Main statements:
* `Query.firstUnknown?_eq_some_iff` — the search finds the first node;
* `Query.compileWith_strict` — compiling, explaining and requesting agree.
-/
import RecordQuery.Proofs.Json.Value
import RecordQuery.Report.Explanation
import RecordQuery.Request

namespace RecordQuery

namespace Query

variable {query node : Query} {e fault : QueryError}

/-! ## Nodes -/

/-- The node to which the numbers of the children on the way lead. -/
def at? : List Nat → Query → Option Query
  | [], query => some query
  | index :: steps, .group _ children => children[index]?.bind (at? steps)
  | _ :: _, .rule _ => none

/-- A node has a name that is not supported, whatever is behind it. -/
inductive Unsupported : Query → QueryError → Prop
  | operator (field name : String) (value : Json) :
      Unsupported (.rule ⟨field, .unknown name, value⟩) (.unknownOperator name)
  | combinator (name : String) (children : List Query) :
      Unsupported (.group (.unknown name) children) (.unknownCombinator name)

/-- No node of the tree has a name that is not supported. -/
def Supported (query : Query) : Prop :=
  ∀ steps node e, query.at? steps = some node → ¬ node.Unsupported e

/-- The node that comes first, depth first, of those with a name that is not supported. -/
def FirstUnsupported (query : Query) (e : QueryError) : Prop :=
  ∃ steps node, query.at? steps = some node ∧ node.Unsupported e ∧
    ∀ earlier < steps, ∀ other fault, query.at? earlier = some other → ¬ other.Unsupported fault

theorem Unsupported.unique (h : node.Unsupported e) (h' : node.Unsupported fault) : e = fault := by
  cases h <;> cases h' <;> rfl

/-- There is one first node at most. -/
theorem FirstUnsupported.unique (h : query.FirstUnsupported e)
    (h' : query.FirstUnsupported fault) : e = fault := by
  obtain ⟨steps, node, hat, hnode, hfirst⟩ := h
  obtain ⟨steps', node', hat', hnode', hfirst'⟩ := h'
  have hsteps : steps = steps' := List.le_antisymm
    (List.not_lt.1 fun hlt => hfirst _ hlt _ _ hat' hnode')
    (List.not_lt.1 fun hlt => hfirst' _ hlt _ _ hat hnode)
  subst hsteps
  rw [hat] at hat'
  cases hat'
  exact hnode.unique hnode'

/-! ## The search -/

theorem firstUnknownIn?_eq_findSome? (children : List Query) :
    firstUnknownIn? children = children.findSome? firstUnknown? := by
  induction children with
  | nil => rfl
  | cons child children ih =>
    rw [firstUnknownIn?, ih, List.findSome?_cons]
    cases child.firstUnknown? <;> rfl

/-- A group with a supported combinator is searched child by child. -/
theorem firstUnknown?_group {combinator : Combinator} (h : combinator.isKnown)
    (children : List Query) :
    (group combinator children).firstUnknown? = children.findSome? firstUnknown? := by
  rw [← firstUnknownIn?_eq_findSome?]
  cases combinator with
  | and => rfl
  | or => rfl
  | unknown name => exact absurd h Bool.false_ne_true

/-- A node with a name that is not supported is found where it stands. -/
theorem firstUnknown?_of_unsupported (h : query.Unsupported e) : query.firstUnknown? = some e := by
  cases h <;> rfl

/-- Where nothing is found no node has a name that is not supported. -/
theorem supported_of_firstUnknown?_eq_none (query : Query) :
    query.firstUnknown? = none → query.Supported := by
  induction query using Query.induction with
  | rule r =>
    intro h steps node e hat hnode
    cases steps with
    | nil =>
      cases hat
      rw [firstUnknown?_of_unsupported hnode] at h
      cases h
    | cons index steps => cases hat
  | group combinator children ih =>
    intro h steps node e hat hnode
    cases steps with
    | nil =>
      cases hat
      rw [firstUnknown?_of_unsupported hnode] at h
      cases h
    | cons index steps =>
      have hknown : combinator.isKnown := by
        cases combinator with
        | unknown name => cases h
        | _ => rfl
      rw [firstUnknown?_group hknown, List.findSome?_eq_none_iff] at h
      obtain ⟨child, hchild, hat⟩ := Option.bind_eq_some_iff.1 hat
      have hmem := List.mem_of_getElem? hchild
      exact ih child hmem (h child hmem) steps node e hat hnode

/-- Nothing comes before the root. -/
theorem firstUnsupported_root (h : query.Unsupported e) : query.FirstUnsupported e :=
  ⟨[], query, rfl, h, fun _ hlt => absurd hlt (List.not_lt_nil _)⟩

/-- In a group whose combinator is supported the first node is the first one of a child, if nothing
is wrong with the children before it. -/
theorem firstUnsupported_group {combinator : Combinator} (hknown : combinator.isKnown)
    {before after : List Query} {child : Query} (hbefore : ∀ other ∈ before, other.Supported)
    (hchild : child.FirstUnsupported e) :
    (group combinator (before ++ child :: after)).FirstUnsupported e := by
  obtain ⟨steps, node, hat, hnode, hfirst⟩ := hchild
  refine ⟨before.length :: steps, node, ?_, hnode, ?_⟩
  · simpa [at?] using hat
  intro earlier hlt other fault hother hfault
  cases earlier with
  | nil =>
    cases hother
    cases hfault
    cases hknown
  | cons index earlier =>
    obtain ⟨sibling, hsibling, hother⟩ := Option.bind_eq_some_iff.1 hother
    rcases List.cons_lt_cons_iff.1 hlt with hindex | ⟨rfl, hbehind⟩
    · rw [List.getElem?_append_left hindex] at hsibling
      exact hbefore sibling (List.mem_of_getElem? hsibling) earlier other fault hother hfault
    · rw [List.getElem?_append_right (Nat.le_refl _), Nat.sub_self] at hsibling
      cases hsibling
      exact hfirst earlier hbehind other fault hother hfault

/-- What is found is the first node with a name that is not supported. -/
theorem firstUnsupported_of_firstUnknown?_eq_some (query : Query) :
    query.firstUnknown? = some e → query.FirstUnsupported e := by
  induction query using Query.induction with
  | rule r =>
    intro h
    obtain ⟨field, operator, value⟩ := r
    cases operator with
    | unknown name =>
      cases h
      exact firstUnsupported_root (.operator field name value)
    | _ => cases h
  | group combinator children ih =>
    intro h
    by_cases hknown : combinator.isKnown
    · rw [firstUnknown?_group hknown, List.findSome?_eq_some_iff] at h
      obtain ⟨before, child, after, rfl, hchild, hbefore⟩ := h
      exact firstUnsupported_group hknown
        (fun other hother => supported_of_firstUnknown?_eq_none other (hbefore other hother))
        (ih child (by simp) hchild)
    · cases combinator with
      | unknown name =>
        cases h
        exact firstUnsupported_root (.combinator name children)
      | _ => exact absurd rfl hknown

theorem FirstUnsupported.not_supported (h : query.FirstUnsupported e) : ¬ query.Supported := by
  obtain ⟨steps, node, hat, hnode, -⟩ := h
  exact fun hsupported => hsupported steps node e hat hnode

/-- The search finds the first node with a name that is not supported. -/
theorem firstUnknown?_eq_some_iff : query.firstUnknown? = some e ↔ query.FirstUnsupported e := by
  refine ⟨firstUnsupported_of_firstUnknown?_eq_some query, fun h => ?_⟩
  cases hfound : query.firstUnknown? with
  | none => exact absurd (supported_of_firstUnknown?_eq_none query hfound) h.not_supported
  | some fault =>
    rw [(firstUnsupported_of_firstUnknown?_eq_some query hfound).unique h]

theorem firstUnknown?_eq_none_iff : query.firstUnknown? = none ↔ query.Supported := by
  refine ⟨supported_of_firstUnknown?_eq_none query, fun h => ?_⟩
  cases hfound : query.firstUnknown? with
  | none => rfl
  | some e => exact absurd h (firstUnknown?_eq_some_iff.1 hfound).not_supported

/-! ## Compiling, explaining and requesting -/

/-- A tree is refused for its first node with a name that is not supported. -/
theorem compileWith_strict_eq_error_iff (catalog : Catalog) :
    query.compileWith catalog true = .error e ↔ query.FirstUnsupported e := by
  rw [← firstUnknown?_eq_some_iff]
  unfold compileWith
  cases query.firstUnknown? with
  | none => simp
  | some fault => simp

/-- What the strict mode lets through is compiled as in the other mode. -/
theorem compileWith_of_supported (h : query.Supported) (catalog : Catalog) (strict : Bool) :
    query.compileWith catalog strict = .ok (query.compile catalog) := by
  unfold compileWith
  rw [firstUnknown?_eq_none_iff.2 h]
  cases strict <;> rfl

end Query

/-- Texts that are read as a tree and a catalog are compiled as these are. -/
theorem FilterArguments.compile_of_parse {arguments : FilterArguments} {query : Query}
    {catalog : Catalog} (hquery : Query.parse arguments.query = .ok query)
    (hcatalog : Catalog.parse arguments.fields = .ok catalog) (strict : Bool) :
    arguments.compile strict = query.compileWith catalog strict := by
  rw [compile, hquery, hcatalog]
  rfl

/-- A request fails as compiling its filter does, whatever its table and cursor. -/
theorem Dataset.page_of_compile_error {dataset : Dataset} {table : String}
    {arguments : FilterArguments} {request : PageRequest} {strict : Bool} {e : QueryError}
    (h : arguments.compile strict = .error e) :
    dataset.page table arguments request strict = .error (.query e) := by
  rw [page, h]
  rfl

namespace Query

variable {query : Query}

/-- The strict mode refuses a tree exactly if a rule has an operator or a group a combinator that is
not supported, and it names the first one, depth first. What it does not refuse it compiles as the
other mode does. The explanation gives the text of the same error, and a request in the strict mode
fails with it, or has the answer of the other mode. -/
theorem compileWith_strict (query : Query) (catalog : Catalog) :
    ((∃ e, query.compileWith catalog true = .error e) ↔
      ∃ steps node e, query.at? steps = some node ∧ node.Unsupported e) ∧
    (∀ e, query.compileWith catalog true = .error e ↔ query.FirstUnsupported e) ∧
    (∀ predicate, query.compileWith catalog true = .ok predicate →
      query.compileWith catalog false = .ok predicate) ∧
    (∀ text, (explain catalog query).strictError = some text ↔
      ∃ e, query.compileWith catalog true = .error e ∧ e.message = text) ∧
    ∀ (dataset : Dataset) (table : String) (arguments : FilterArguments) (request : PageRequest),
      parse arguments.query = .ok query → Catalog.parse arguments.fields = .ok catalog →
        (∀ e, query.compileWith catalog true = .error e →
          dataset.page table arguments request true = .error (.query e)) ∧
        ((∀ e, query.compileWith catalog true ≠ .error e) →
          dataset.page table arguments request true = dataset.page table arguments request false) := by
  have hsupported : (∀ e, query.compileWith catalog true ≠ .error e) ↔ query.Supported := by
    rw [← firstUnknown?_eq_none_iff, Option.eq_none_iff_forall_ne_some]
    simp only [ne_eq, compileWith_strict_eq_error_iff, firstUnknown?_eq_some_iff]
  have hrefused : (∃ e, query.compileWith catalog true = .error e) ↔ ¬ query.Supported := by
    simp [← hsupported]
  refine ⟨?_, fun e => compileWith_strict_eq_error_iff catalog, ?_, ?_, ?_⟩
  · simp [hrefused, Supported]
  · intro predicate hpredicate
    have h := hsupported.1 fun e he => by rw [he] at hpredicate; cases hpredicate
    rw [← hpredicate, compileWith_of_supported h, compileWith_of_supported h]
  · intro text
    rw [explain]
    cases query.compileWith catalog true <;> simp
  · intro dataset table arguments request hquery hcatalog
    have hcompile := FilterArguments.compile_of_parse hquery hcatalog
    refine ⟨fun e he => Dataset.page_of_compile_error (by rw [hcompile, he]), fun hnone => ?_⟩
    have h := hsupported.1 hnone
    have hmodes : arguments.compile true = arguments.compile false := by
      rw [hcompile, hcompile, compileWith_of_supported h, compileWith_of_supported h]
    rw [Dataset.page, Dataset.page, hmodes]

/-- A tree with several names that are not supported; the first one is that of an operator. -/
def strayQuery : Query :=
  .group .and [.rule ⟨"a", .equal, .null⟩,
    .group .or [.rule ⟨"b", .unknown "between", .null⟩, .group (.unknown "xor") []],
    .rule ⟨"c", .unknown "like", .null⟩]

theorem compileWith_strict_stray :
    strayQuery.FirstUnsupported (.unknownOperator "between") ∧
      (explain .empty strayQuery).strictError = some "unknown operator: between" ∧
      parse strayQuery.toJson.compact = .ok strayQuery ∧ Catalog.parse "[]" = .ok .empty ∧
      (Dataset.empty.insert "t" ⟨"id", 0, .empty⟩).page "nowhere"
          ⟨strayQuery.toJson.compact, "[]"⟩ ⟨5, some "no id", none⟩ true =
        .error (.query (.unknownOperator "between")) := by
  obtain ⟨-, hfirst, -, hexplain, hpage⟩ := compileWith_strict strayQuery .empty
  have herror : strayQuery.compileWith .empty true = .error (.unknownOperator "between") := rfl
  have hread : Json.read strayQuery.toJson.compact = .ok strayQuery.toJson.reread :=
    Json.read_written Layout.isBlank_compact (by decide) (by decide)
  have hquery : parse strayQuery.toJson.compact = .ok strayQuery := by
    rw [parse, hread]
    rfl
  have hcatalog : Catalog.parse "[]" = .ok .empty := rfl
  exact ⟨(hfirst _).1 herror, (hexplain _).2 ⟨_, herror, rfl⟩, hquery, hcatalog,
    (hpage _ _ ⟨_, _⟩ _ hquery hcatalog).1 _ herror⟩

end Query

end RecordQuery
