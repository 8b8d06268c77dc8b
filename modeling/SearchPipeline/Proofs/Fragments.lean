import SearchPipeline.Pipeline
import SearchPipeline.Proofs.Compiled
import Mathlib.Data.List.Perm.Basic

/-!
# What the matches of a search are made of

Each field of a filter gives one fragment, and so does a quick search.  A fragment
goes to one of two sides: before the joins, or after them.  The match of a side asks
for the fragments that went there and for the extra condition of that side.  This
file writes the members of a match out, and shows that a search that compiles gets
exactly the matches that have them.
-/

namespace SearchPipeline

/-! ## Sides and groups -/

/-- Where a condition is matched. -/
inductive Side where
  | before
  | after
deriving DecidableEq

def Conditions.on (conditions : Conditions) : Side → Option Document
  | .before => conditions.before
  | .after => conditions.after

namespace Document

/-- Documents as the members of one operator. -/
def group (operator : String) (members : List Document) : Document :=
  [(operator, .array (members.map .document))]

/-- The document that asks for all members; without members it is empty. -/
def conjunction : List Document → Document
  | [] => []
  | member :: members => group "$and" (member :: members)

/--
The documents that all have to match and those of which one has to, as one document
if there are any.
-/
def combine? : (required optional : List Document) → Option Document
  | [], [] => none
  | [], member :: members => some (group "$or" (member :: members))
  | member :: members, [] => some (group "$and" (member :: members))
  | first :: required, second :: optional =>
    some (group "$and" [group "$and" (first :: required), group "$or" (second :: optional)])

/-- What passes from the members of a group to the group passes to documents in one. -/
theorem combine?_induction
    {holds : Document → Prop}
    (step : ∀ operator members,
      operator = "$and" ∨ operator = "$or" → members ≠ [] →
        (∀ member ∈ members, holds member) → holds (group operator members))
    {required optional : List Document}
    (ofRequired : ∀ member ∈ required, holds member)
    (ofOptional : ∀ member ∈ optional, holds member)
    {combined : Document}
    (found : combine? required optional = some combined) :
    holds combined := by
  unfold combine? at found
  split at found
  · contradiction
  · rw [← Option.some.inj found]
    exact step "$or" _ (.inr rfl) (List.cons_ne_nil _ _) ofOptional
  · rw [← Option.some.inj found]
    exact step "$and" _ (.inl rfl) (List.cons_ne_nil _ _) ofRequired
  · rw [← Option.some.inj found]
    refine step "$and" _ (.inl rfl) (List.cons_ne_nil _ _) ?_
    simp only [List.forall_mem_cons]
    exact
      ⟨step "$and" _ (.inl rfl) (List.cons_ne_nil _ _) ofRequired,
        step "$or" _ (.inr rfl) (List.cons_ne_nil _ _) ofOptional, by simp⟩

end Document

namespace Expression

theorem toDocument_all
    {members : List Expression}
    (nonempty : members ≠ []) :
    (Expression.all members).toDocument =
      Document.group "$and" (members.map toDocument) := by
  cases members with
  | nil => exact (nonempty rfl).elim
  | cons member members =>
      simp [toDocument, Document.group, Function.comp_def]

theorem toDocument_any
    {members : List Expression}
    (nonempty : members ≠ []) :
    (Expression.any members).toDocument =
      Document.group "$or" (members.map toDocument) := by
  cases members with
  | nil => exact (nonempty rfl).elim
  | cons member members =>
      simp [toDocument, Document.group, Function.comp_def]

end Expression

namespace Conditions

theorem getD_conjunction
    (members : List Expression) :
    (conjunction members).getD [] =
      Document.conjunction (members.map Expression.toDocument) := by
  cases members with
  | nil => rfl
  | cons member members =>
      exact Expression.toDocument_all (List.cons_ne_nil _ _)

/-- Merging two conjunctions asks for the members of both, the left ones first. -/
theorem getD_mergeOptional_conjunction
    (left right : List Expression) :
    (Document.mergeOptional (conjunction left) (conjunction right)).getD [] =
      Document.conjunction ((left ++ right).map Expression.toDocument) := by
  cases left with
  | nil => exact getD_conjunction right
  | cons first left =>
      cases right with
      | nil =>
          rw [List.append_nil]
          exact getD_conjunction (first :: left)
      | cons second right =>
          simp only [conjunction, Expression.toDocument, Document.mergeOptional, Document.merge,
            Document.get?, Document.insert, Bson.mergeInto, ↓reduceIte]
          simp [Document.conjunction, Document.group, Function.comp_def]

theorem map_toDocument_asMember
    (condition : Option Document) :
    (asMember condition).map Expression.toDocument = condition.toList := by
  cases condition with
  | none => rfl
  | some document => simp [asMember, Expression.toDocument]

end Conditions

/-! ## The fragment of a field -/

/-- The document of a condition on a field, if the condition compiles. -/
def Condition.document?
    (field : String)
    (condition : Condition) :
    Option Document :=
  match (condition.compile field).outcome with
  | .ok expression => some expression.toDocument
  | .error _ => none

namespace Filter

/-- The documents of the required conditions on a field, or of the others, in order. -/
def documents
    (field : String)
    (conditions : List Condition)
    (required : Bool) :
    List Document :=
  (conditions.filter (·.isRequired = required)).filterMap (Condition.document? field)

/-- The fragment of a field; a field without conditions has none. -/
def fragment?
    (field : String)
    (conditions : List Condition) :
    Option Document :=
  Document.combine? (documents field conditions true) (documents field conditions false)

/--
The side of a field: after the joins if its path has a dot or one of its conditions
looks into the objects of a list.
-/
def side
    (field : String)
    (conditions : List Condition) :
    Side :=
  if '.' ∈ field.toList ∨ ∃ condition ∈ conditions, condition.mode = .arrayContainsObject then
    .after
  else .before

/-- The fragments that go to a side, in the order of the fields' names. -/
def fragments
    (filter : Filter)
    (wanted : Side) :
    List Document :=
  (filter.entries.filter fun entry => side entry.1 entry.2 = wanted).filterMap fun entry =>
    fragment? entry.1 entry.2

/-- Every fragment goes to exactly one side. -/
theorem fragments_perm
    (filter : Filter) :
    (filter.fragments .before ++ filter.fragments .after).Perm
      (filter.entries.filterMap fun entry => fragment? entry.1 entry.2) := by
  have opposite (entry : String × List Condition) :
      decide (side entry.1 entry.2 = .after) = !decide (side entry.1 entry.2 = .before) := by
    cases side entry.1 entry.2 <;> rfl
  simp only [fragments, opposite, ← List.filterMap_append]
  exact (List.filter_append_perm _ _).filterMap _

theorem waitsForJoins_eq
    (field : String)
    (conditions : List Condition) :
    waitsForJoins field conditions = decide (side field conditions = .after) := by
  rw [Bool.eq_iff_iff]
  simp [waitsForJoins, side, FieldPath.isNested, MatchMode.isStructural]

theorem map_toDocument_combine
    (required optional : List Expression) :
    (combine (groups required optional)).map Expression.toDocument =
      Document.combine? (required.map Expression.toDocument)
        (optional.map Expression.toDocument) := by
  cases required with
  | nil =>
      cases optional with
      | nil => rfl
      | cons second optional =>
          simp [groups, combine, Document.combine?, Expression.toDocument_any]
  | cons first required =>
      cases optional with
      | nil => simp [groups, combine, Document.combine?, Expression.toDocument_all]
      | cons second optional =>
          simp [groups, combine, Document.combine?, Expression.toDocument_all,
            Expression.toDocument_any]

/-- What a list of conditions compiles to are their documents, required or not. -/
theorem documents_eq_of_compiled
    {field : String}
    {conditions : List Condition}
    {expressions : List Expression}
    (compiled :
      List.Forall₂
        (fun condition expression => (condition.compile field).outcome = .ok expression)
        conditions expressions)
    (required : Bool) :
    ((conditions.zip expressions).filter (·.1.isRequired = required)).map (·.2.toDocument) =
      documents field conditions required := by
  induction compiled with
  | nil => rfl
  | @cons condition expression conditions expressions first rest induction =>
      have rendered : Condition.document? field condition = some expression.toDocument := by
        rw [Condition.document?, first]
      unfold documents at induction ⊢
      by_cases same : condition.isRequired = required
      · simp [same, rendered, induction]
      · simp [same, induction]

/-- A field that compiles has all its conditions compile, and gives its fragment. -/
theorem compileField_eq_ok
    {field : String}
    {conditions : List Condition}
    {expression : Option Expression}
    (compiled : (compileField field conditions).outcome = .ok expression) :
    (∀ condition ∈ conditions, ∃ part, (condition.compile field).outcome = .ok part) ∧
      expression.map Expression.toDocument = fragment? field conditions := by
  rw [compileField, Compiled.outcome_andThen_result_eq_ok_iff] at compiled
  rcases compiled with ⟨expressions, parts, combined⟩
  constructor
  · exact Compiled.exists_outcome_of_each_eq_ok parts
  · rw [Compiled.outcome_each_eq_ok_iff] at parts
    rw [← combined, map_toDocument_combine, fragment?, ← documents_eq_of_compiled parts true,
      ← documents_eq_of_compiled parts false]
    simp [Function.comp_def]

/-! ## The matches of a search -/

/-- Fields that compile give their fragments to the side on which they are waited for. -/
theorem map_toDocument_members
    {entries : List (String × List Condition)}
    {expressions : List (Option Expression)}
    (compiled :
      List.Forall₂
        (fun entry expression => (compileField entry.1 entry.2).outcome = .ok expression)
        entries expressions)
    (wanted : Side) :
    ((((entries.zip expressions).filterMap fun (entry, expression) =>
          expression.map (waitsForJoins entry.1 entry.2, ·)).filter
        (·.1 = decide (wanted = .after))).map (·.2.toDocument)) =
      (entries.filter fun entry => side entry.1 entry.2 = wanted).filterMap fun entry =>
        fragment? entry.1 entry.2 := by
  induction compiled with
  | nil => rfl
  | @cons entry expression entries expressions first rest induction =>
      have routed :
          (waitsForJoins entry.1 entry.2 = decide (wanted = .after)) ↔
            side entry.1 entry.2 = wanted := by
        rw [waitsForJoins_eq]
        cases side entry.1 entry.2 <;> cases wanted <;> decide
      have rendered := (compileField_eq_ok first).2
      cases expression with
      | none =>
          simp only [Option.map_none] at rendered
          by_cases here : side entry.1 entry.2 = wanted
          · simpa [here, ← rendered] using induction
          · simpa [here] using induction
      | some expression =>
          simp only [Option.map_some] at rendered
          by_cases here : side entry.1 entry.2 = wanted
          · simpa [routed, here, ← rendered] using induction
          · simpa [routed, here] using induction

/--
A filter that compiles has all its conditions compile, and asks on each side for the
fragments of that side and then for the extra condition.
-/
theorem compile_eq_ok
    {filter : Filter}
    {extras conditions : Conditions}
    (compiled : (filter.compile extras).outcome = .ok conditions) :
    (∀ entry ∈ filter.entries, ∀ condition ∈ entry.2,
        ∃ part, (condition.compile entry.1).outcome = .ok part) ∧
      ∃ before after : List Expression,
        conditions = .ofGroups before after ∧
          before.map Expression.toDocument =
            filter.fragments .before ++ extras.before.toList ∧
          after.map Expression.toDocument =
            filter.fragments .after ++ extras.after.toList := by
  rw [compile, Compiled.outcome_andThen_result_eq_ok_iff] at compiled
  rcases compiled with ⟨members, listed, grouped⟩
  rw [compileFields, Compiled.outcome_andThen_result_eq_ok_iff] at listed
  rcases listed with ⟨expressions, fields, marked⟩
  constructor
  · intro entry member
    obtain ⟨expression, field⟩ := Compiled.exists_outcome_of_each_eq_ok fields entry member
    exact (compileField_eq_ok field).1
  · rw [Compiled.outcome_each_eq_ok_iff] at fields
    refine ⟨_, _, grouped.symm, ?_, ?_⟩
    · have routed := map_toDocument_members fields .before
      rw [marked] at routed
      rw [List.map_append, Conditions.map_toDocument_asMember, fragments, ← routed]
      simp
    · have routed := map_toDocument_members fields .after
      rw [marked] at routed
      rw [List.map_append, Conditions.map_toDocument_asMember, fragments, ← routed]
      simp

end Filter

namespace QuickSearch

def fieldDocument
    (quick : QuickSearch)
    (field : String) :
    Document :=
  (Expression.pattern field quick.value).toDocument

/-- The side of a quick search: after the joins if the path of one of its fields has a dot. -/
def side (quick : QuickSearch) : Side :=
  if ∃ field ∈ quick.fields, '.' ∈ field.toList then .after else .before

/-- The fragment of a quick search on its side; a search in no field has none. -/
def fragments
    (quick : QuickSearch)
    (wanted : Side) :
    List Document :=
  if quick.fields ≠ [] ∧ quick.side = wanted then
    [Document.group "$or" (quick.fields.map quick.fieldDocument)]
  else []

theorem fragments_append
    (quick : QuickSearch) :
    quick.fragments .before ++ quick.fragments .after =
      if quick.fields = [] then []
      else [Document.group "$or" (quick.fields.map quick.fieldDocument)] := by
  by_cases none : quick.fields = []
  · simp [fragments, none]
  · cases routed : quick.side <;> simp [fragments, none, routed]

theorem toDocument_expression
    {quick : QuickSearch}
    (nonempty : quick.fields ≠ []) :
    quick.expression.toDocument =
      Document.group "$or" (quick.fields.map quick.fieldDocument) := by
  rw [expression, Expression.toDocument_any (by simpa using nonempty), List.map_map]
  rfl

theorem map_toDocument_members
    (quick : QuickSearch) :
    quick.members.1.map Expression.toDocument = quick.fragments .before ∧
      quick.members.2.map Expression.toDocument = quick.fragments .after := by
  have waits : quick.waitsForJoins = decide (quick.side = .after) := by
    rw [Bool.eq_iff_iff]
    simp [waitsForJoins, side, FieldPath.isNested]
  by_cases none : quick.fields = []
  · simp [members, fragments, none]
  · cases routed : quick.side <;>
      simp [members, fragments, none, waits, routed, toDocument_expression]

/-- A quick search that compiles asks on each side for its fragment and for the extra condition. -/
theorem compile_eq_ok
    {quick : QuickSearch}
    {extras conditions : Conditions}
    (compiled : (quick.compile extras).outcome = .ok conditions) :
    ∃ before after : List Expression,
      conditions = .ofGroups before after ∧
        before.map Expression.toDocument = quick.fragments .before ++ extras.before.toList ∧
        after.map Expression.toDocument = quick.fragments .after ++ extras.after.toList := by
  rw [compile] at compiled
  split at compiled
  · cases compiled
  · rw [Compiled.outcome_result, Except.ok.injEq] at compiled
    refine ⟨_, _, compiled.symm, ?_, ?_⟩
    · rw [List.map_append, Conditions.map_toDocument_asMember, quick.map_toDocument_members.1]
    · rw [List.map_append, Conditions.map_toDocument_asMember, quick.map_toDocument_members.2]

end QuickSearch

namespace Search

/--
The members of the match on a side.  The extra condition follows the fragments of
the filter, or those of the quick search if there is no filter.
-/
def members
    (search : Search)
    (extras : Conditions)
    (wanted : Side) :
    List Document :=
  match search.filter, search.quick with
  | none, none => []
  | some filter, none => filter.fragments wanted ++ (extras.on wanted).toList
  | none, some quick => quick.fragments wanted ++ (extras.on wanted).toList
  | some filter, some quick =>
    filter.fragments wanted ++ (extras.on wanted).toList ++ quick.fragments wanted

/-- A member is a fragment of the filter or of the quick search, or the extra condition. -/
theorem of_mem_members
    {search : Search}
    {extras : Conditions}
    {wanted : Side}
    {member : Document}
    (listed : member ∈ search.members extras wanted) :
    (∃ filter, search.filter = some filter ∧ member ∈ filter.fragments wanted) ∨
      (∃ quick, search.quick = some quick ∧ member ∈ quick.fragments wanted) ∨
        extras.on wanted = some member := by
  rw [members] at listed
  cases filtered : search.filter with
  | none =>
      cases found : search.quick with
      | none => simp [filtered, found] at listed
      | some quick => simpa [filtered, found] using listed
  | some filter =>
      cases found : search.quick with
      | none => simpa [filtered, found] using listed
      | some quick =>
          simp only [filtered, found, List.mem_append, Option.mem_toList] at listed
          rcases listed with (fragment | extra) | fragment
          · exact .inl ⟨filter, rfl, fragment⟩
          · exact .inr (.inr extra)
          · exact .inr (.inl ⟨quick, rfl, fragment⟩)

/--
The document of the match on a side: the conjunction of its members, or the extra
condition as it stands if there is neither a filter nor a quick search.
-/
def matchDocument
    (search : Search)
    (extras : Conditions)
    (wanted : Side) :
    Document :=
  if search.filter.isNone ∧ search.quick.isNone then (extras.on wanted).getD []
  else Document.conjunction (search.members extras wanted)

theorem compileConditions_eq_ok
    {search : Search}
    {extras conditions : Conditions}
    (compiled : (search.compileConditions extras).outcome = .ok conditions) :
    conditions.before.getD [] = search.matchDocument extras .before ∧
      conditions.after.getD [] = search.matchDocument extras .after := by
  rw [compileConditions] at compiled
  cases filtered : search.filter with
  | none =>
      cases found : search.quick with
      | none =>
          simp only [filtered, found, Compiled.outcome_result, Except.ok.injEq] at compiled
          simp [matchDocument, filtered, found, ← compiled, Conditions.on]
      | some quick =>
          simp only [filtered, found] at compiled
          obtain ⟨before, after, rfl, beforeMembers, afterMembers⟩ :=
            QuickSearch.compile_eq_ok compiled
          simp [Conditions.ofGroups, Conditions.getD_conjunction, beforeMembers, afterMembers,
            matchDocument, members, filtered, found, Conditions.on]
  | some filter =>
      cases found : search.quick with
      | none =>
          simp only [filtered, found] at compiled
          obtain ⟨-, before, after, rfl, beforeMembers, afterMembers⟩ :=
            Filter.compile_eq_ok compiled
          simp [Conditions.ofGroups, Conditions.getD_conjunction, beforeMembers, afterMembers,
            matchDocument, members, filtered, found, Conditions.on]
      | some quick =>
          simp only [filtered, found, Compiled.outcome_andThen_eq_ok_iff,
            Compiled.outcome_result, Except.ok.injEq] at compiled
          rcases compiled with ⟨left, leftCompiled, right, rightCompiled, rfl⟩
          -- The quick search is compiled without the extra conditions, which are asked for once.
          obtain ⟨-, before, after, rfl, beforeMembers, afterMembers⟩ :=
            Filter.compile_eq_ok leftCompiled
          obtain ⟨quickBefore, quickAfter, rfl, quickBeforeMembers, quickAfterMembers⟩ :=
            QuickSearch.compile_eq_ok rightCompiled
          simp [Conditions.ofGroups, Conditions.merge, Conditions.getD_mergeOptional_conjunction,
            beforeMembers, afterMembers, quickBeforeMembers, quickAfterMembers,
            matchDocument, members, filtered, found, Conditions.on]

theorem exists_compile_of_compileConditions
    {search : Search}
    {extras conditions : Conditions}
    (compiled : (search.compileConditions extras).outcome = .ok conditions) :
    ∀ filter, search.filter = some filter → ∀ entry ∈ filter.entries,
      ∀ condition ∈ entry.2, ∃ part, (condition.compile entry.1).outcome = .ok part := by
  intro filter filtered
  rw [compileConditions, filtered] at compiled
  cases found : search.quick with
  | none =>
      rw [found] at compiled
      exact (Filter.compile_eq_ok compiled).1
  | some quick =>
      simp only [found, Compiled.outcome_andThen_eq_ok_iff] at compiled
      rcases compiled with ⟨left, leftCompiled, -⟩
      exact (Filter.compile_eq_ok leftCompiled).1

/-- A search that compiles gives a projection, if any, and the stages that follow it. -/
theorem compile_eq_ok
    {settings : Settings}
    {search : Search}
    {joins pipeline : List Document}
    {extras : Conditions}
    {skipsSort : Bool}
    (compiled : (search.compile settings joins extras skipsSort).outcome = .ok pipeline) :
    (∀ filter, search.filter = some filter → ∀ entry ∈ filter.entries,
        ∀ condition ∈ entry.2, ∃ part, (condition.compile entry.1).outcome = .ok part) ∧
      ∃ following,
        following =
            Stage.matching (search.matchDocument extras .before) :: joins ++
              Stage.matching (search.matchDocument extras .after) ::
                search.sortStages skipsSort ∧
          pipeline = Projection.stages settings search following ++ following := by
  rw [compile, Compiled.outcome_andThen_result_eq_ok_iff] at compiled
  rcases compiled with ⟨conditions, conditionsCompiled, staged⟩
  obtain ⟨before, after⟩ := compileConditions_eq_ok conditionsCompiled
  refine ⟨exists_compile_of_compileConditions conditionsCompiled, _, rfl, ?_⟩
  rw [← staged, stagesAfterProjection, before, after]

/-! ## A sample search -/

/-- A search with conditions on either side of the joins, and a quick search. -/
def sample : Search where
  filter := some
    { entries :=
        [("age",
            [{ value := .int32 18, mode := .greaterThanOrEqual, isRequired := true },
              { value := .int32 30, mode := .lessThan },
              { value := .int32 60, mode := .greaterThan }]),
          ("dept.name", [{ value := .string "sales", mode := .equals }])]
      sorted := by decide }
  quick := some { value := "ann", fields := ["name"] }
  sortKey := some "age"

/-- Extra conditions on either side of the joins. -/
def sampleExtras : Conditions where
  before := some [("$or", .array [.document [("tenant", .string "t1")]])]
  after := some [("dept.active", .boolean true)]

open Document in
/-- The pipeline of the sample, with its two matches. -/
def samplePipeline : List Document :=
  [[("$match", .document
      (group "$and"
        [group "$and"
            [group "$and" [[("age", Bson.entry "$gte" (.int32 18))]],
              group "$or"
                [[("age", Bson.entry "$lt" (.int32 30))], [("age", Bson.entry "$gt" (.int32 60))]]],
          group "$or" [[("tenant", .string "t1")]],
          group "$or"
            [[("name", .document [("$regex", .string "ann"), ("$options", .string "i")])]]]))],
    [("$match", .document
      (group "$and"
        [group "$or" [[("dept.name", .string "sales")]], [("dept.active", .boolean true)]]))],
    [("$sort", .document [("age", .int32 1)])]]

end Search

end SearchPipeline
