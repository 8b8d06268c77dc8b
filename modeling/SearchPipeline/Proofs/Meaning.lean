import SearchPipeline.Proofs.Fragments
import SearchPipeline.Proofs.Stage

/-!
# The meaning of a compiled search

A document of a match is true when all its entries are.  The operators `$and` and
`$or` stand for all and for any of their members; which other entries are true is
left open, so that what is proved holds for every row and every operator.  The two
matches of a pipeline together mean what the search asks for: for each field all
required conditions and one of the others, a find in one of the fields of the quick
search, and the extra conditions.
-/

namespace SearchPipeline

/-! ## Truth of documents -/

/-- Which entries are true, apart from those that only stand for their members. -/
abbrev Valuation := String → Bson → Bool

def Bson.isDocument : Bson → Bool
  | .document _ => true
  | _ => false

mutual

/-- A document is true when all its entries are. -/
def Document.holds (valuation : Valuation) : Document → Bool
  | [] => true
  | (key, value) :: rest =>
    Bson.holdsUnder valuation key value && Document.holds valuation rest
termination_by structural document => document

/--
An entry stands for its members if it is an operator over documents.  Every other
entry is true as the valuation says.
-/
def Bson.holdsUnder
    (valuation : Valuation)
    (key : String) :
    Bson → Bool
  | .array members =>
    if key = "$and" ∧ members.all Bson.isDocument then Bson.allHold valuation members
    else if key = "$or" ∧ members.all Bson.isDocument then Bson.anyHolds valuation members
    else valuation key (.array members)
  | value => valuation key value
termination_by structural value => value

/-- All members are true documents. -/
def Bson.allHold (valuation : Valuation) : List Bson → Bool
  | [] => true
  | member :: rest => Bson.isTrue valuation member && Bson.allHold valuation rest
termination_by structural members => members

/-- One of the members is a true document. -/
def Bson.anyHolds (valuation : Valuation) : List Bson → Bool
  | [] => false
  | member :: rest => Bson.isTrue valuation member || Bson.anyHolds valuation rest
termination_by structural members => members

def Bson.isTrue (valuation : Valuation) : Bson → Bool
  | .document entries => Document.holds valuation entries
  | _ => false
termination_by structural value => value

end

namespace Document

variable (valuation : Valuation)

theorem allHold_map_document
    (members : List Document) :
    Bson.allHold valuation (members.map .document) = members.all (holds valuation) := by
  induction members with
  | nil => rfl
  | cons member members induction =>
      rw [List.map_cons, Bson.allHold, Bson.isTrue, induction, List.all_cons]

theorem anyHolds_map_document
    (members : List Document) :
    Bson.anyHolds valuation (members.map .document) = members.any (holds valuation) := by
  induction members with
  | nil => rfl
  | cons member members induction =>
      rw [List.map_cons, Bson.anyHolds, Bson.isTrue, induction, List.any_cons]

theorem all_isDocument_map_document
    (members : List Document) :
    (members.map Bson.document).all Bson.isDocument = true := by
  simp [Bson.isDocument]

@[simp]
theorem holds_group_and
    (members : List Document) :
    holds valuation (group "$and" members) = members.all (holds valuation) := by
  rw [group, holds, Bson.holdsUnder, if_pos ⟨rfl, all_isDocument_map_document members⟩,
    allHold_map_document, holds, Bool.and_true]

@[simp]
theorem holds_group_or
    (members : List Document) :
    holds valuation (group "$or" members) = members.any (holds valuation) := by
  rw [group, holds, Bson.holdsUnder, if_neg (by simp),
    if_pos ⟨rfl, all_isDocument_map_document members⟩, anyHolds_map_document, holds,
    Bool.and_true]

@[simp]
theorem holds_conjunction
    (members : List Document) :
    holds valuation (conjunction members) = members.all (holds valuation) := by
  cases members with
  | nil => rfl
  | cons member members => exact holds_group_and valuation (member :: members)

/--
Documents in one are true when all required ones are, and one of the others if there
are any.
-/
theorem forall_holds_combine?_iff
    (required optional : List Document) :
    (∀ combined, combine? required optional = some combined →
        holds valuation combined = true) ↔
      (∀ document ∈ required, holds valuation document = true) ∧
        (optional ≠ [] → ∃ document ∈ optional, holds valuation document = true) := by
  cases required with
  | nil =>
      cases optional with
      | nil => simp [combine?]
      | cons second optional => simp [combine?]
  | cons first required =>
      cases optional with
      | nil => simp [combine?]
      | cons second optional => simp [combine?]

end Document

/-! ## What a search asks for -/

variable (valuation : Valuation)

/-- A condition on a field is true when it compiles to a true document. -/
def Condition.Holds
    (field : String)
    (condition : Condition) :
    Prop :=
  ∃ expression, (condition.compile field).outcome = .ok expression ∧
    expression.toDocument.holds valuation = true

/--
The conditions on a field are true when all required ones are, and one of the others
if there are others.
-/
def Filter.ConditionsHold
    (field : String)
    (conditions : List Condition) :
    Prop :=
  (∀ condition ∈ conditions, condition.isRequired = true → condition.Holds valuation field) ∧
    ((∃ condition ∈ conditions, condition.isRequired = false) →
      ∃ condition ∈ conditions, condition.isRequired = false ∧
        condition.Holds valuation field)

/-- A quick search is true when one of its fields is found to have the text. -/
def QuickSearch.Holds (quick : QuickSearch) : Prop :=
  quick.fields ≠ [] →
    ∃ field ∈ quick.fields, (quick.fieldDocument field).holds valuation = true

/-- All that a search with extra conditions asks for. -/
structure Search.Holds (search : Search) (extras : Conditions) : Prop where
  filtered : ∀ filter, search.filter = some filter → ∀ entry ∈ filter.entries,
    Filter.ConditionsHold valuation entry.1 entry.2
  found : ∀ quick, search.quick = some quick → quick.Holds valuation
  extraBefore : ∀ document, extras.before = some document → document.holds valuation = true
  extraAfter : ∀ document, extras.after = some document → document.holds valuation = true

/-! ## Fragments mean what they are made of -/

namespace Filter

theorem mem_documents
    {field : String}
    {conditions : List Condition}
    {required : Bool}
    {document : Document} :
    document ∈ documents field conditions required ↔
      ∃ condition ∈ conditions, condition.isRequired = required ∧
        condition.document? field = some document := by
  simp [documents, and_assoc]

theorem document?_eq_some_iff
    {field : String}
    {condition : Condition}
    {document : Document} :
    condition.document? field = some document ↔
      ∃ expression, (condition.compile field).outcome = .ok expression ∧
        expression.toDocument = document := by
  rw [Condition.document?]
  cases (condition.compile field).outcome with
  | error cause => simp
  | ok expression => simp

theorem exists_documents_iff
    (field : String)
    (conditions : List Condition)
    (required : Bool) :
    (∃ document ∈ documents field conditions required, document.holds valuation = true) ↔
      ∃ condition ∈ conditions, condition.isRequired = required ∧
        condition.Holds valuation field := by
  constructor
  · rintro ⟨document, member, holds⟩
    rcases mem_documents.mp member with ⟨condition, conditionMember, same, rendered⟩
    rcases document?_eq_some_iff.mp rendered with ⟨expression, compiled, rfl⟩
    exact ⟨condition, conditionMember, same, expression, compiled, holds⟩
  · rintro ⟨condition, member, same, expression, compiled, holds⟩
    have rendered := document?_eq_some_iff.mpr ⟨expression, compiled, rfl⟩
    exact ⟨_, mem_documents.mpr ⟨condition, member, same, rendered⟩, holds⟩

section

variable
  {field : String}
  {conditions : List Condition}
  (compile :
    ∀ condition ∈ conditions, ∃ part, (condition.compile field).outcome = .ok part)

include compile

theorem documents_eq_nil_iff
    (required : Bool) :
    documents field conditions required = [] ↔
      ∀ condition ∈ conditions, condition.isRequired ≠ required := by
  rw [List.eq_nil_iff_forall_not_mem]
  constructor
  · intro empty condition member same
    obtain ⟨part, compiled⟩ := compile condition member
    exact empty part.toDocument
      (mem_documents.mpr
        ⟨condition, member, same, document?_eq_some_iff.mpr ⟨part, compiled, rfl⟩⟩)
  · intro other document member
    rcases mem_documents.mp member with ⟨condition, conditionMember, same, -⟩
    exact other condition conditionMember same

theorem forall_documents_iff
    (required : Bool) :
    (∀ document ∈ documents field conditions required, document.holds valuation = true) ↔
      ∀ condition ∈ conditions, condition.isRequired = required →
        condition.Holds valuation field := by
  constructor
  · intro holds condition member same
    obtain ⟨part, compiled⟩ := compile condition member
    have rendered := document?_eq_some_iff.mpr ⟨part, compiled, rfl⟩
    exact ⟨part, compiled, holds _ (mem_documents.mpr ⟨condition, member, same, rendered⟩)⟩
  · intro holds document member
    rcases mem_documents.mp member with ⟨condition, conditionMember, same, rendered⟩
    rcases document?_eq_some_iff.mp rendered with ⟨expression, compiled, rfl⟩
    obtain ⟨other, otherCompiled, otherHolds⟩ := holds condition conditionMember same
    rw [compiled, Except.ok.injEq] at otherCompiled
    exact otherCompiled ▸ otherHolds

theorem forall_holds_fragment?_iff :
    (∀ fragment, fragment? field conditions = some fragment →
        fragment.holds valuation = true) ↔
      ConditionsHold valuation field conditions := by
  rw [fragment?, Document.forall_holds_combine?_iff, forall_documents_iff valuation compile,
    exists_documents_iff, ne_eq, documents_eq_nil_iff compile,
    ConditionsHold]
  simp

end

theorem mem_fragments
    {filter : Filter}
    {wanted : Side}
    {fragment : Document} :
    fragment ∈ filter.fragments wanted ↔
      ∃ entry ∈ filter.entries, side entry.1 entry.2 = wanted ∧
        fragment? entry.1 entry.2 = some fragment := by
  simp [fragments, and_assoc]

theorem forall_holds_fragments_iff
    {filter : Filter}
    (compile :
      ∀ entry ∈ filter.entries, ∀ condition ∈ entry.2,
        ∃ part, (condition.compile entry.1).outcome = .ok part) :
    (∀ wanted, ∀ fragment ∈ filter.fragments wanted, fragment.holds valuation = true) ↔
      ∀ entry ∈ filter.entries, ConditionsHold valuation entry.1 entry.2 := by
  constructor
  · intro holds entry member
    rw [← forall_holds_fragment?_iff valuation (compile entry member)]
    intro fragment found
    exact holds _ fragment (mem_fragments.mpr ⟨entry, member, rfl, found⟩)
  · intro holds wanted fragment member
    rcases mem_fragments.mp member with ⟨entry, entryMember, -, found⟩
    exact (forall_holds_fragment?_iff valuation (compile entry entryMember)).mpr
      (holds entry entryMember) fragment found

end Filter

namespace QuickSearch

theorem forall_holds_fragments_iff
    (quick : QuickSearch) :
    (∀ wanted, ∀ fragment ∈ quick.fragments wanted, fragment.holds valuation = true) ↔
      quick.Holds valuation := by
  have found :
      (Document.group "$or" (quick.fields.map quick.fieldDocument)).holds valuation = true ↔
        ∃ field ∈ quick.fields, (quick.fieldDocument field).holds valuation = true := by
    rw [Document.holds_group_or, List.any_map, List.any_eq_true]
    rfl
  constructor
  · intro holds nonempty
    rw [← found]
    exact holds quick.side _ (by simp [fragments, nonempty])
  · intro holds wanted fragment member
    rw [fragments] at member
    split at member
    · rename_i here
      rw [List.mem_singleton.mp member, found]
      exact holds here.1
    · cases member

end QuickSearch

namespace Search

/-- A match without a filter and without a quick search is the extra condition itself. -/
theorem holds_matchDocument_of_none
    {search : Search}
    (noFilter : search.filter = none)
    (noQuick : search.quick = none)
    (extras : Conditions)
    (wanted : Side) :
    (search.matchDocument extras wanted).holds valuation = true ↔
      ∀ document, extras.on wanted = some document → document.holds valuation = true := by
  rw [matchDocument, if_pos (by simp [noFilter, noQuick])]
  cases extras.on wanted with
  | none => simp [Document.holds]
  | some document => simp

/-- A match is true when all that goes to its side is. -/
theorem holds_matchDocument_iff
    (search : Search)
    (extras : Conditions)
    (wanted : Side) :
    (search.matchDocument extras wanted).holds valuation = true ↔
      (∀ filter, search.filter = some filter →
        ∀ fragment ∈ filter.fragments wanted, fragment.holds valuation = true) ∧
      (∀ quick, search.quick = some quick →
        ∀ fragment ∈ quick.fragments wanted, fragment.holds valuation = true) ∧
      ∀ document, extras.on wanted = some document → document.holds valuation = true := by
  cases filtered : search.filter with
  | none =>
      cases found : search.quick with
      | none =>
          rw [holds_matchDocument_of_none valuation filtered found]
          simp
      | some quick =>
          rw [matchDocument, if_neg (by simp [found]), Document.holds_conjunction,
            List.all_eq_true]
          simp [members, filtered, found, or_imp, forall_and]
  | some filter =>
      rw [matchDocument, if_neg (by simp [filtered]), Document.holds_conjunction,
        List.all_eq_true]
      cases found : search.quick with
      | none => simp [members, filtered, found, or_imp, forall_and]
      | some quick =>
          simp only [members, filtered, found, List.mem_append, Option.mem_toList, or_imp,
            forall_and, Option.some.injEq, forall_eq']
          tauto

/--
Around the stages of the joins a pipeline has two matches, and besides these at most a projection
and a sort.  The matches are both true exactly when the search with its extra conditions is.
-/
theorem matches_hold_iff
    (settings : Settings)
    (search : Search)
    (joins : List Document)
    (extras : Conditions)
    (skipsSort : Bool)
    (pipeline : List Document)
    (compiled : (search.compile settings joins extras skipsSort).outcome = .ok pipeline) :
    ∃ (before after : Document) (following : List Document),
      pipeline = Projection.stages settings search following ++ following ∧
      following =
        [("$match", .document before)] :: joins ++
          [("$match", .document after)] :: search.sortStages skipsSort ∧
      (∀ stage ∈ Projection.stages settings search following,
        ∃ fields : List String,
          stage = [("$project", .document (fields.map fun field => (field, .int32 1)))]) ∧
      (∀ stage ∈ search.sortStages skipsSort,
        ∃ key direction, stage = [("$sort", .document [(key, .int32 direction)])]) ∧
      (before.holds valuation = true ∧ after.holds valuation = true ↔
        search.Holds valuation extras) := by
  obtain ⟨conditionsCompile, following, listed, joined⟩ := compile_eq_ok compiled
  refine ⟨_, _, following, joined, listed, fun _ => Projection.eq_inclusion_of_mem_stages,
    fun _ => eq_sort_of_mem_sortStages, ?_⟩
  rw [holds_matchDocument_iff, holds_matchDocument_iff]
  constructor
  · rintro ⟨⟨filterBefore, quickBefore, extraBefore⟩, filterAfter, quickAfter, extraAfter⟩
    refine ⟨?_, ?_, extraBefore, extraAfter⟩
    · intro filter filtered
      rw [← Filter.forall_holds_fragments_iff valuation (conditionsCompile filter filtered)]
      intro wanted
      cases wanted with
      | before => exact filterBefore filter filtered
      | after => exact filterAfter filter filtered
    · intro quick found
      rw [← QuickSearch.forall_holds_fragments_iff valuation quick]
      intro wanted
      cases wanted with
      | before => exact quickBefore quick found
      | after => exact quickAfter quick found
  · intro holds
    have filtered (wanted : Side) :
        ∀ filter, search.filter = some filter →
          ∀ fragment ∈ filter.fragments wanted, fragment.holds valuation = true := by
      intro filter some
      exact (Filter.forall_holds_fragments_iff valuation (conditionsCompile filter some)).mpr
        (holds.filtered filter some) wanted
    have found (wanted : Side) :
        ∀ quick, search.quick = some quick →
          ∀ fragment ∈ quick.fragments wanted, fragment.holds valuation = true := by
      intro quick some
      exact (QuickSearch.forall_holds_fragments_iff valuation quick).mpr
        (holds.found quick some) wanted
    exact
      ⟨⟨filtered .before, found .before, holds.extraBefore⟩,
        filtered .after, found .after, holds.extraAfter⟩

/-- The sample asks for something, and a row for which every entry it names is true has it. -/
theorem matches_hold_iff_sample :
    (∃ pipeline, (sample.compile {} [] sampleExtras false).outcome = .ok pipeline) ∧
      sample.Holds (fun key _ => key ∈ ["age", "dept.name", "name", "tenant", "dept.active"])
        sampleExtras := by
  obtain ⟨before, after, following, joined, listed, -, -, holds⟩ :=
    matches_hold_iff (fun key _ => key ∈ ["age", "dept.name", "name", "tenant", "dept.active"])
      {} sample [] sampleExtras false samplePipeline rfl
  refine ⟨⟨_, rfl⟩, holds.mp ?_⟩
  subst listed
  simp only [Projection.stages, sample, samplePipeline, List.nil_append, List.cons_append,
    List.cons.injEq, Prod.mk.injEq, Bson.document.injEq, true_and, and_true] at joined
  rcases joined with ⟨rfl, rfl, -⟩
  decide

end Search

end SearchPipeline
