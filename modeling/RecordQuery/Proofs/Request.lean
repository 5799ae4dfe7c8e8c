/-
RecordQuery.Proofs.Request — filter arguments survive being sent as text.

An editor sends a tree and a catalog as two texts. Both are read as what they
were written from: the catalog always, the tree if its unknown names are
genuine (`Query.IsGenuine`), it nests no deeper than the reader of JSON goes,
and each double in it is read from its own text. So a request with these texts
has the answer that compiling the tree itself gives, or fails with the same
error.

A tree whose names are not genuine is one that no reader gives: it has an
operator `=` or a combinator `AND` that is kept as unknown.

Main definitions:
* `Query.IsGenuine`.

Main statements:
* `Query.isGenuine_iff_isCanonical` — each name stands for what it is kept as;
* `Query.parse_compact` — a tree is read from its text;
* `FilterArguments.read_ofQuery` — texts and requests.
-/
import RecordQuery.Proofs.Catalog
import RecordQuery.Proofs.Query.Grammar
import RecordQuery.Proofs.Query.Strict

namespace RecordQuery

/-! ## Genuine names -/

/-- An operator that is kept as unknown has none of the supported names. -/
def Operator.IsGenuine (operator : Operator) : Prop :=
  ∀ name, operator = .unknown name → ∀ other ∈ supported, other.name ≠ name

/-- A combinator that is kept as unknown is not `and` or `or` in small or large letters. -/
def Combinator.IsGenuine (combinator : Combinator) : Prop :=
  ∀ name, combinator = .unknown name → name.toLower ≠ "and" ∧ name.toLower ≠ "or"

/-- All that is kept as unknown in a tree has a name that is not supported. -/
def Query.IsGenuine : Query → Prop
  | .rule r => r.operator.IsGenuine
  | .group combinator children => combinator.IsGenuine ∧ ∀ child ∈ children, child.IsGenuine

/-- An operator is genuine if it is the one that its name stands for. -/
theorem Operator.isGenuine_iff (operator : Operator) :
    operator.IsGenuine ↔ ofName operator.name = operator := by
  cases operator with
  | unknown name =>
    simp only [IsGenuine, unknown.injEq, forall_eq']
    show _ ↔ ofName name = unknown name
    unfold ofName
    cases hfound : supported.find? fun other => other.name = name with
    | none =>
      refine iff_of_true (fun other hother => ?_) rfl
      simpa using List.find?_eq_none.1 hfound other hother
    | some other =>
      have hother : other ∈ supported := List.mem_of_find?_eq_some hfound
      have hname : other.name = name := by simpa using List.find?_some hfound
      refine iff_of_false (fun h => h other hother hname) ?_
      rintro rfl
      simp [supported] at hother
  | _ => exact iff_of_true nofun (by decide)

/-- A combinator is genuine if it is the one that its name stands for. -/
theorem Combinator.isGenuine_iff (combinator : Combinator) :
    combinator.IsGenuine ↔ ofName combinator.name = combinator := by
  cases combinator with
  | unknown name =>
    simp only [IsGenuine, unknown.injEq, forall_eq', Combinator.name, ofName_eq]
    by_cases hand : name.toLower = "and"
    · simp [hand]
    by_cases hor : name.toLower = "or"
    · simp [hor]
    · simp [hand, hor]
  | _ =>
    refine iff_of_true ?_ (by decide)
    intro name h
    cases h

namespace Query

/-- The trees with genuine names are those in which each name stands for what it is kept as. -/
theorem isGenuine_iff_isCanonical (query : Query) : query.IsGenuine ↔ query.IsCanonical := by
  induction query using Query.induction with
  | rule r => rw [IsGenuine, IsCanonical, Operator.isGenuine_iff]
  | group combinator children ih =>
    rw [IsGenuine, IsCanonical, Combinator.isGenuine_iff]
    exact and_congr_right fun _ => forall₂_congr ih

/-! ## Trees as text -/

/-- A written tree is sorted if the values of its rules are: its own keys are. -/
theorem isSorted_toJson (query : Query) :
    (∀ rule ∈ query.rules, rule.value.IsSorted) → query.toJson.IsSorted := by
  induction query using Query.induction with
  | rule r =>
    intro h
    rw [toJson, Rule.toJson, Json.isSorted_object_iff]
    have hkeys : ["field", "operator", "value"].Pairwise (· < ·) := by decide
    refine ⟨increasing_iff.2 hkeys, ?_⟩
    simp only [List.forall_mem_cons]
    exact ⟨.string _, .string _, h r (List.mem_singleton_self r), List.forall_mem_nil _⟩
  | group combinator children ih =>
    intro h
    rw [toJson, Json.isSorted_object_iff]
    have hkeys : ["combinator", "rules"].Pairwise (· < ·) := by decide
    refine ⟨increasing_iff.2 hkeys, ?_⟩
    simp only [List.forall_mem_cons]
    refine ⟨.string _, .array fun value hvalue => ?_, List.forall_mem_nil _⟩
    obtain ⟨child, hchild, rfl⟩ := mem_toJsonAll.1 hvalue
    exact ih child hchild fun rule hrule => h rule (mem_rules_group.2 ⟨child, hchild, hrule⟩)

/-- Whatever tree is read from a text has genuine names. -/
theorem isGenuine_of_parse {text : String} {query : Query} (h : parse text = .ok query) :
    query.IsGenuine := by
  rw [isGenuine_iff_isCanonical]
  unfold parse at h
  split at h
  · cases h
  · rename_i value _
    exact (keeps_of_ofJsonAt value .root query h).isCanonical

/-- A tree is read from its text. -/
theorem parse_compact {query : Query} (hnames : query.IsGenuine)
    (hsorted : ∀ rule ∈ query.rules, rule.value.IsSorted)
    (hnesting : query.toJson.nesting ≤ Json.maxLevels)
    (hdoubles : ∀ x ∈ query.toJson.doubles,
      Json.read (String.ofList x.jsonChars) = .ok (.number (.double x))) :
    parse query.toJson.compact = .ok query := by
  have hjson := isSorted_toJson query hsorted
  have hreread : query.toJson.reread = query.toJson :=
    hjson.reread_eq_self_iff.2 fun x hx => (Json.reread_eq_self_iff_read x).2 (hdoubles x hx)
  have hread : Json.read query.toJson.compact = .ok query.toJson.reread :=
    Json.read_written Layout.isBlank_compact hjson hnesting
  rw [parse, hread, hreread]
  exact ofJsonAt_toJson ((isGenuine_iff_isCanonical query).1 hnames) .root

end Query

/-! ## Requests -/

namespace FilterArguments

/-- The texts of a tree and a catalog are read as this tree and this catalog, the catalog also from
its pretty text as a command prints it, with a line end behind it. So a request with these texts is
the compiled tree, the table and the page, one after the other, with the same error where one of
them fails. Every tree that is read from a text has the genuine names that are asked for here; that
the values of the rules are sorted is what every value has that this library builds. -/
theorem read_ofQuery :
    (∀ text query, Query.parse text = .ok query → query.IsGenuine) ∧
    ∀ query : Query, query.IsGenuine → (∀ rule ∈ query.rules, rule.value.IsSorted) →
      query.toJson.nesting ≤ Json.maxLevels →
      (∀ x ∈ query.toJson.doubles,
        Json.read (String.ofList x.jsonChars) = .ok (.number (.double x))) →
      ∀ catalog : Catalog,
        Query.parse (ofQuery query catalog).query = .ok query ∧
        Catalog.parse (ofQuery query catalog).fields = .ok catalog ∧
        Catalog.parse catalog.toJson.pretty = .ok catalog ∧
        Catalog.parse (catalog.toJson.pretty ++ "\n") = .ok catalog ∧
        ∀ (dataset : Dataset) (table : String) (request : PageRequest) (strict : Bool),
          dataset.page table (ofQuery query catalog) request strict = (do
            let predicate ← (query.compileWith catalog strict).mapError RequestError.query
            let records ← dataset.recordsOf table
            (paginate (fun record => predicate.accepts record.view) request records).mapError
              .page) := by
  refine ⟨fun text query h => Query.isGenuine_of_parse h, ?_⟩
  intro query hnames hsorted hnesting hdoubles catalog
  have hquery : Query.parse (ofQuery query catalog).query = .ok query :=
    Query.parse_compact hnames hsorted hnesting hdoubles
  have hcatalog : Catalog.parse (ofQuery query catalog).fields = .ok catalog :=
    Catalog.parse_compact catalog
  refine ⟨hquery, hcatalog, Catalog.parse_pretty catalog, Catalog.parse_pretty_line catalog, ?_⟩
  intro dataset table request strict
  rw [Dataset.page, compile_of_parse hquery hcatalog]

/-- A tree with names that are not supported, and with texts and numbers that need care in JSON. -/
def oddQuery : Query :=
  .group (.unknown "xor") [.group .or [],
    .rule ⟨"\"", .unknown "IS", .array [.number (.double ⟨true, .largest⟩), .string "\n\x7d"]⟩,
    .rule ⟨"", .atMost, .object [("", .null), ("a", .number (.double ⟨true, .zero⟩))]⟩]

/-- A catalog that lists one name twice, once with all and once without what may be left out. -/
def oddCatalog : Catalog :=
  ⟨[⟨"\\", some "", .date, some "\x7b"⟩, ⟨"\\", none, .number, none⟩, ⟨"", some "type", .text, none⟩]⟩

theorem read_ofQuery_odd :
    oddQuery.IsGenuine ∧ oddQuery.toJson.nesting = 4 ∧ oddQuery.toJson.doubles.length = 2 ∧
      Query.parse (ofQuery oddQuery oddCatalog).query = .ok oddQuery ∧
      Catalog.parse (ofQuery oddQuery oddCatalog).fields = .ok oddCatalog ∧
      Dataset.empty.page "t" (ofQuery oddQuery oddCatalog) ⟨1, none, none⟩ true =
        .error (.query (.unknownCombinator "xor")) ∧
      Dataset.empty.page "t" (ofQuery oddQuery oddCatalog) ⟨1, some "id", none⟩ false =
        .error (.page (.invalidCursor "id")) := by
  have hnames : oddQuery.IsGenuine := (Query.isGenuine_iff_isCanonical oddQuery).2
    (Query.keeps_of_ofJsonAt oddQuery.toJson .root oddQuery rfl).isCanonical
  have hsorted : ∀ rule ∈ oddQuery.rules, rule.value.IsSorted := by decide
  have hnesting : oddQuery.toJson.nesting = 4 := by decide
  have hdoubles : ∀ x ∈ oddQuery.toJson.doubles,
      Json.read (String.ofList x.jsonChars) = .ok (.number (.double x)) := by decide +kernel
  obtain ⟨hquery, hcatalog, -, -, hpage⟩ :=
    read_ofQuery.2 oddQuery hnames hsorted (by rw [hnesting]; decide) hdoubles oddCatalog
  refine ⟨hnames, hnesting, by decide, hquery, hcatalog, ?_, ?_⟩
  · rw [hpage]
    rfl
  · rw [hpage]
    rfl

end FilterArguments

end RecordQuery
