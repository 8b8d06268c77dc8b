import SearchPipeline.Proofs.Alternatives
import SearchPipeline.Proofs.FilterGrammar
import SearchPipeline.Proofs.Meaning
import SearchPipeline.Proofs.Operands

/-!
# Groups with members

Every row matches a document without entries.  A condition that a client describes does not
lead to one: its value is no empty list, so it compiles to comparisons of its field and to
groups of at least one of them.  A condition that is put together otherwise may have an empty
list, which asks for nothing; the groups around it still have members.
-/

namespace SearchPipeline

/-! ## Grouped documents -/

namespace Document

/-- A document is a leaf, or a group of at least one document that is put together so. -/
inductive Grouped (leaf : Document → Prop) : Document → Prop where
  | leaf
      {document : Document}
      (ends : leaf document) :
      Grouped leaf document
  | group
      {operator : String}
      {members : List Document}
      (known : operator = "$and" ∨ operator = "$or")
      (filled : members ≠ [])
      (each : ∀ member ∈ members, Grouped leaf member) :
      Grouped leaf (group operator members)

section Grouped

variable {leaf : Document → Prop}

theorem Grouped.imp
    {other : Document → Prop}
    (every : ∀ document, leaf document → other document)
    {document : Document}
    (grouped : Grouped leaf document) :
    Grouped other document := by
  induction grouped with
  | leaf ends => exact .leaf (every _ ends)
  | group known filled _ induction => exact .group known filled induction

theorem Grouped.ne_nil
    (filled : ∀ document, leaf document → document ≠ [])
    {document : Document}
    (grouped : Grouped leaf document) :
    document ≠ [] := by
  cases grouped with
  | leaf ends => exact filled _ ends
  | group => exact List.cons_ne_nil _ _

end Grouped

theorem combine?_eq_none_iff (required optional : List Document) :
    combine? required optional = none ↔ required = [] ∧ optional = [] := by
  cases required <;> cases optional <;> simp [combine?]

end Document

/-! ## Conditions -/

theorem Bson.items_of_not_isList
    {value : Bson}
    (single : ¬ value.IsList) :
    value.items = [value] := by
  cases value with
  | array => exact (single trivial).elim
  | _ => rfl

namespace Condition

/-- The values that a condition compares its field with, each by itself. -/
def comparedValues (condition : Condition) : List Bson :=
  if condition.mode.isItemwise then condition.value.items else [condition.value]

/-- The documents that compare a field with these values. -/
def comparisons
    (field : String)
    (condition : Condition) :
    List Document :=
  condition.comparedValues.map fun value => [(field, condition.operand value)]

theorem ne_nil_of_mem_comparisons
    {field : String}
    {condition : Condition}
    {document : Document}
    (compares : document ∈ condition.comparisons field) :
    document ≠ [] := by
  obtain ⟨value, -, rfl⟩ := List.mem_map.mp compares
  exact List.cons_ne_nil _ _

theorem not_isList_operand
    {condition : Condition}
    {value : Bson}
    (single : condition.mode = .equals → ¬ value.IsList) :
    ¬ (condition.operand value).IsList := by
  by_cases equality : condition.mode = .equals
  · rw [operand, equality, Bson.toIdentifier_isList_iff]
    exact single equality
  · obtain ⟨entries, operators⟩ := (isOperators_operand equality value).exists_document
    rw [operators]
    exact id

theorem grouped_comparing_operands
    {condition : Condition}
    (filled : condition.value ≠ .array [])
    (field : String) :
    (comparing field condition.operands).Grouped (· ∈ condition.comparisons field) := by
  cases itemwise : condition.mode.isItemwise with
  | true =>
      have compared : condition.comparedValues = condition.value.items := if_pos itemwise
      rw [operands, if_pos itemwise, comparisons, compared]
      -- The items of a list are the members of one group; any other value stands alone.
      by_cases listed : condition.value.IsList
      · obtain ⟨items, given⟩ := Bson.isList_iff.mp listed
        have nonempty : items ≠ [] := by
          rintro rfl
          exact filled given
        rw [given, Bson.mapItems, comparing, List.map_map]
        refine .group (.inr rfl) (by simpa using nonempty) ?_
        exact fun document compares => .leaf compares
      · rw [Bson.mapItems_of_not_isList listed,
          comparing_of_not_isList (not_isList_operand fun _ => listed),
          Bson.items_of_not_isList listed]
        exact .leaf (by simp)
  | false =>
      have differs : condition.mode ≠ .equals := by
        intro equality
        rw [equality] at itemwise
        contradiction
      have compared : condition.comparedValues = [condition.value] := by
        simp [comparedValues, itemwise]
      have whole : condition.operands = condition.operand condition.value := by
        simp [operands, itemwise]
      rw [whole, comparisons, compared,
        comparing_of_not_isList (not_isList_operand fun equality => (differs equality).elim)]
      exact .leaf (by simp)

/-- An empty list asks for nothing, unless the mode takes the list as a whole. -/
theorem toDocument_of_compile_empty
    {field : String}
    {condition : Condition}
    (empty : condition.value = .array [])
    {expression : Expression}
    (compiled : (condition.compile field).outcome = .ok expression) :
    expression.toDocument = [] ∨
      condition.mode.isItemwise = false ∧
        expression.toDocument = [(field, condition.operand condition.value)] := by
  rcases condition with ⟨value, mode, isRequired, property⟩
  obtain rfl : value = .array [] := empty
  cases mode with
  | between => cases compiled
  | arrayContains =>
      cases compiled
      exact .inr ⟨rfl, rfl⟩
  | arrayContainsObject => exact .inr ⟨rfl, toDocument_of_elements compiled⟩
  | _ =>
      cases compiled
      exact .inl rfl

/-- A condition compiles to groups of comparisons, or to what an empty list asks for. -/
theorem grouped_of_compile
    {field : String}
    {condition : Condition}
    {expression : Expression}
    (compiled : (condition.compile field).outcome = .ok expression) :
    expression.toDocument.Grouped fun document =>
      document ∈ condition.comparisons field ∨ condition.value = .array [] ∧ document = [] := by
  by_cases empty : condition.value = .array []
  · refine .leaf ?_
    rcases toDocument_of_compile_empty empty compiled with nothing | ⟨whole, compares⟩
    · exact .inr ⟨empty, nothing⟩
    · rw [compares]
      exact .inl (by simp [comparisons, comparedValues, whole])
  · rw [toDocument_of_compile empty compiled]
    exact (grouped_comparing_operands empty field).imp fun _ => .inl

end Condition

/-! ## Fields -/

namespace Filter

variable {field : String} {conditions : List Condition}

theorem grouped_documents
    {leaf : Document → Prop}
    (compiles : ∀ condition ∈ conditions, ∀ expression,
      (condition.compile field).outcome = .ok expression → expression.toDocument.Grouped leaf)
    (required : Bool) :
    ∀ document ∈ documents field conditions required, document.Grouped leaf := by
  intro document member
  obtain ⟨condition, asked, -, rendered⟩ := mem_documents.mp member
  obtain ⟨expression, compiled, rfl⟩ := document?_eq_some_iff.mp rendered
  exact compiles condition asked expression compiled

theorem grouped_fragment
    {leaf : Document → Prop}
    (compiles : ∀ condition ∈ conditions, ∀ expression,
      (condition.compile field).outcome = .ok expression → expression.toDocument.Grouped leaf)
    {fragment : Document}
    (found : fragment? field conditions = some fragment) :
    fragment.Grouped leaf :=
  Document.combine?_induction (fun _ _ => .group) (grouped_documents compiles true)
    (grouped_documents compiles false) found

/-- A field with conditions that compile has a fragment. -/
theorem exists_compileField
    (filled : conditions ≠ [])
    (compile : ∀ condition ∈ conditions,
      ∃ expression, (condition.compile field).outcome = .ok expression) :
    ∃ fragment, (compileField field conditions).outcome = .ok (some fragment) := by
  obtain ⟨expressions, listed⟩ := Compiled.exists_outcome_each_of_forall compile
  have compiles : ∃ combined, (compileField field conditions).outcome = .ok combined := by
    simp only [compileField, Compiled.outcome_andThen_result_eq_ok_iff]
    exact ⟨_, expressions, listed, rfl⟩
  obtain ⟨combined, compiled⟩ := compiles
  have rendered := (compileField_eq_ok compiled).2
  cases combined with
  | some fragment => exact ⟨fragment, compiled⟩
  | none =>
      rw [Option.map_none, fragment?, eq_comm, Document.combine?_eq_none_iff,
        documents_eq_nil_iff compile, documents_eq_nil_iff compile] at rendered
      obtain ⟨condition, asked⟩ := List.exists_mem_of_ne_nil conditions filled
      have notRequired := rendered.1 condition asked
      have notOptional := rendered.2 condition asked
      rw [ne_eq, Bool.not_eq_true] at notRequired
      exact (notOptional notRequired).elim

/-- No condition of a filter that is described has an empty list. -/
theorem value_ne_empty_of_ofBson
    {given : Bson}
    {filter : Filter}
    (read : ofBson given = .ok filter) :
    ∀ entry ∈ filter.entries, ∀ condition ∈ entry.2, condition.value ≠ .array [] := by
  intro entry member condition asked
  cases given with
  | document description =>
      obtain ⟨_, -, _, -, describes⟩ := exists_describes_of_mem read member asked
      cases describes with
      | document _ isValue => exact isValue.notEmptyList
  | _ => contradiction

end Filter

/-! ## Searches -/

namespace Search

/-- The documents in which the groups of a match end. -/
inductive Leaf
    (search : Search)
    (extras : Conditions)
    (wanted : Side) :
    Document → Prop where
  | compared
      {filter : Filter}
      {entry : String × List Condition}
      {condition : Condition}
      {document : Document}
      (filtered : search.filter = some filter)
      (member : entry ∈ filter.entries)
      (asked : condition ∈ entry.2)
      (compares : document ∈ condition.comparisons entry.1) :
      Leaf search extras wanted document
  | nothing
      {filter : Filter}
      {entry : String × List Condition}
      {condition : Condition}
      (filtered : search.filter = some filter)
      (member : entry ∈ filter.entries)
      (asked : condition ∈ entry.2)
      (empty : condition.value = .array []) :
      Leaf search extras wanted []
  | found
      {quick : QuickSearch}
      {field : String}
      (looks : search.quick = some quick)
      (member : field ∈ quick.fields) :
      Leaf search extras wanted (quick.fieldDocument field)
  | given
      {document : Document}
      (extra : extras.on wanted = some document) :
      Leaf search extras wanted document

variable (search : Search) (extras : Conditions) (wanted : Side)

theorem grouped_filter_fragments
    {filter : Filter}
    (filtered : search.filter = some filter) :
    ∀ fragment ∈ filter.fragments wanted, fragment.Grouped (search.Leaf extras wanted) := by
  intro fragment member
  obtain ⟨entry, listed, -, found⟩ := Filter.mem_fragments.mp member
  refine Filter.grouped_fragment (fun condition asked expression compiled => ?_) found
  refine (Condition.grouped_of_compile compiled).imp ?_
  rintro document (compares | ⟨empty, rfl⟩)
  · exact .compared filtered listed asked compares
  · exact .nothing filtered listed asked empty

theorem grouped_quick_fragments
    {quick : QuickSearch}
    (looks : search.quick = some quick) :
    ∀ fragment ∈ quick.fragments wanted, fragment.Grouped (search.Leaf extras wanted) := by
  intro fragment member
  rw [QuickSearch.fragments] at member
  split at member
  · rename_i here
    rw [List.mem_singleton.mp member]
    refine .group (.inr rfl) (by simpa using here.1) ?_
    rw [List.forall_mem_map]
    exact fun field member => .leaf (.found looks member)
  · cases member

theorem grouped_members :
    ∀ member ∈ search.members extras wanted, member.Grouped (search.Leaf extras wanted) := by
  intro member listed
  rcases of_mem_members listed with ⟨filter, filtered, fragment⟩ | ⟨quick, looks, fragment⟩ | extra
  · exact search.grouped_filter_fragments extras wanted filtered member fragment
  · exact search.grouped_quick_fragments extras wanted looks member fragment
  · exact .leaf (.given extra)

/-- A match has no entries, or is put together from groups with members. -/
theorem grouped_matchDocument :
    search.matchDocument extras wanted = [] ∨
      (search.matchDocument extras wanted).Grouped (search.Leaf extras wanted) := by
  rw [matchDocument]
  split
  · cases extra : extras.on wanted with
    | none => exact .inl rfl
    | some document => exact .inr (.leaf (.given extra))
  · cases listed : search.members extras wanted with
    | nil => exact .inl rfl
    | cons member members =>
        refine .inr (.group (.inl rfl) (List.cons_ne_nil _ _) ?_)
        exact listed ▸ search.grouped_members extras wanted

end Search

/--
The conditions of a filter that is described compile to documents with entries, and those on a
field to groups with members, down to comparisons of this field.  Whatever the conditions of a
search are, each of its two matches has no entries or consists of groups with members, down to
comparisons, to documents without entries for conditions that are given an empty list, and to
the extra condition as it stands.
-/
theorem Search.compile_fills_groups :
    (∀ given filter,
      Filter.ofBson given = .ok filter →
        (∀ entry ∈ filter.entries, ∀ condition ∈ entry.2,
          ∃ expression, (condition.compile entry.1).outcome = .ok expression) →
        ∀ entry ∈ filter.entries,
          (∀ condition ∈ entry.2, ∀ expression,
            (condition.compile entry.1).outcome = .ok expression → expression.toDocument ≠ []) ∧
          (entry.2 ≠ [] →
            ∃ fragment,
              (Filter.compileField entry.1 entry.2).outcome = .ok (some fragment) ∧
                fragment.toDocument.Grouped fun document =>
                  ∃ condition ∈ entry.2, document ∈ condition.comparisons entry.1)) ∧
    ∀ settings search joins extras skipsSort pipeline,
      (compile settings search joins extras skipsSort).outcome = .ok pipeline →
        ∃ (condition : Side → Document) (following : List Document),
          pipeline = Projection.stages settings search following ++ following ∧
          following =
            [("$match", .document (condition .before))] :: joins ++
              [("$match", .document (condition .after))] :: search.sortStages skipsSort ∧
          ∀ side, condition side = [] ∨ (condition side).Grouped (search.Leaf extras side) := by
  constructor
  · intro given filter read compile entry member
    have grouped : ∀ condition ∈ entry.2, ∀ expression,
        (condition.compile entry.1).outcome = .ok expression →
          expression.toDocument.Grouped (· ∈ condition.comparisons entry.1) := by
      intro condition asked expression compiled
      refine (Condition.grouped_of_compile compiled).imp ?_
      rintro document (compares | ⟨empty, -⟩)
      · exact compares
      · exact (Filter.value_ne_empty_of_ofBson read entry member condition asked empty).elim
    constructor
    · intro condition asked expression compiled
      exact (grouped condition asked expression compiled).ne_nil
        fun _ => Condition.ne_nil_of_mem_comparisons
    · intro filled
      obtain ⟨fragment, compiled⟩ := Filter.exists_compileField filled (compile entry member)
      refine ⟨fragment, compiled, ?_⟩
      refine Filter.grouped_fragment ?_ (Filter.compileField_eq_ok compiled).2.symm
      intro condition asked expression compiled
      exact (grouped condition asked expression compiled).imp
        fun document compares => ⟨condition, asked, compares⟩
  · intro settings search joins extras skipsSort pipeline compiled
    obtain ⟨-, following, listed, joined⟩ := compile_eq_ok compiled
    exact ⟨search.matchDocument extras, following, joined, listed,
      search.grouped_matchDocument extras⟩

namespace Search

/-- Two conditions on one field, as a client describes them. -/
def describedTags : Bson :=
  .document
    [("tags",
      .array
        [.document
            [("value", .array [.string "new", .string "old"]), ("matchMode", .string "contains")],
          .document
            [("value", .string "hot"), ("matchMode", .string "equals"),
              ("required", .boolean true)]])]

/-- The conditions that are described. -/
def tagConditions : List Condition :=
  [{ value := .array [.string "new", .string "old"], mode := .contains },
    { value := .string "hot", mode := .equals, isRequired := true }]

/-- A search with a condition that no client can describe: it is given an empty list. -/
def unasked : Search where
  filter := some
    { entries := [("tags", [{ value := .array [], mode := .equals }])]
      sorted := by decide }

/-- What is described has a fragment; the group around an empty list has a member. -/
theorem compile_fills_groups_tags :
    (∃ fragment,
        (Filter.compileField "tags" tagConditions).outcome = .ok (some fragment) ∧
          fragment.toDocument.Grouped fun document =>
            ∃ condition ∈ tagConditions, document ∈ condition.comparisons "tags") ∧
      (unasked.compile {} [] {} true).outcome =
        .ok
          [[("$match", .document (Document.group "$and" [Document.group "$or" [[]]]))],
            [("$match", .document [])]] ∧
      (Document.group "$and" [Document.group "$or" [[]]]).Grouped (unasked.Leaf {} .before) := by
  have filled :=
    compile_fills_groups.1 describedTags
      { entries := [("tags", tagConditions)], sorted := by decide } rfl
  have compile : ∀ condition ∈ tagConditions,
      ∃ expression, (condition.compile "tags").outcome = .ok expression := by
    simp only [tagConditions, List.forall_mem_cons]
    exact ⟨⟨_, rfl⟩, ⟨_, rfl⟩, by simp⟩
  have fragment :=
    (filled (by simpa using compile) ("tags", tagConditions) (by simp)).2 (List.cons_ne_nil _ _)
  obtain ⟨condition, following, joined, listed, grouped⟩ :=
    compile_fills_groups.2 {} unasked [] {} true
      [[("$match", .document (Document.group "$and" [Document.group "$or" [[]]]))],
        [("$match", .document [])]]
      rfl
  refine ⟨fragment, rfl, ?_⟩
  subst listed
  simp only [Projection.stages, unasked, List.nil_append, List.cons_append, List.cons.injEq,
    Prod.mk.injEq, Bson.document.injEq, true_and, and_true] at joined
  rw [joined.1]
  rcases grouped .before with none | grouped
  · rw [none] at joined
    exact (List.cons_ne_nil _ _ joined.1).elim
  · exact grouped

end Search

end SearchPipeline
