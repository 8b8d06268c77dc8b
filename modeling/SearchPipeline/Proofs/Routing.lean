import SearchPipeline.Proofs.Fragments

/-!
# The fields that the first match constrains

Which side a condition goes to is decided by its field's path and by the modes of the
field's conditions; the names of the joins have no part in it.  So the first match
constrains a field that only a join puts in place exactly if the field's path has no dot
and none of its conditions looks into the objects of a list.
-/

namespace SearchPipeline

/-! ## Fields of expressions -/

namespace Expression

mutual

/-- The fields that an expression constrains; a condition given as a document is not looked into. -/
def fields : Expression → List String
  | .equal field _ => [field]
  | .compare field _ _ => [field]
  | .pattern field _ => [field]
  | .range field _ _ => [field]
  | .oneOf field _ => [field]
  | .elementOneOf field _ _ => [field]
  | .all members => fieldsOfMembers members
  | .any members => fieldsOfMembers members
  | .given _ => []
termination_by structural expression => expression

def fieldsOfMembers : List Expression → List String
  | [] => []
  | member :: members => fields member ++ fieldsOfMembers members
termination_by structural members => members

end

theorem mem_fieldsOfMembers
    {members : List Expression}
    {field : String} :
    field ∈ fieldsOfMembers members ↔ ∃ member ∈ members, field ∈ member.fields := by
  induction members with
  | nil => simp [fieldsOfMembers]
  | cons member members induction => simp [fieldsOfMembers, induction]

@[simp]
theorem mem_fields_all
    {members : List Expression}
    {field : String} :
    field ∈ (all members).fields ↔ ∃ member ∈ members, field ∈ member.fields := by
  rw [fields, mem_fieldsOfMembers]

@[simp]
theorem mem_fields_any
    {members : List Expression}
    {field : String} :
    field ∈ (any members).fields ↔ ∃ member ∈ members, field ∈ member.fields := by
  rw [fields, mem_fieldsOfMembers]

end Expression

/-! ## The field of a condition -/

namespace Condition

/-- Whether a condition asks for any of an empty list of values. -/
def HasNoAlternative (condition : Condition) : Prop :=
  condition.value = .array [] ∧ condition.mode ≠ .arrayContains ∧
    condition.mode ≠ .arrayContainsObject

section Fields

variable {field : String} {part : Expression}

/-- Alternatives constrain the field that each of them constrains, unless there are none. -/
theorem mem_fields_of_alternatives
    {compile : Bson → Compiled Expression}
    {value : Bson}
    (single : ∀ value part, (compile value).outcome = .ok part → part.fields = [field])
    (compiled : (alternatives compile value).outcome = .ok part)
    (name : String) :
    name ∈ part.fields ↔ name = field ∧ value ≠ .array [] := by
  cases value with
  | array items =>
      rw [alternatives, Compiled.outcome_andThen_result_eq_ok_iff] at compiled
      obtain ⟨members, listed, rfl⟩ := compiled
      rw [Compiled.outcome_each_eq_ok_iff] at listed
      rw [Expression.mem_fields_any]
      induction listed with
      | nil => simp
      | cons first rest induction =>
          have filled (value : Bson) (rest : List Bson) : Bson.array (value :: rest) ≠ .array [] := by
            simp
          rw [List.exists_mem_cons_iff, single _ _ first, List.mem_singleton, induction,
            or_iff_left_of_imp And.left, and_iff_left (filled _ _)]
  | _ => simp [single _ _ compiled]

theorem mem_fields_of_comparison
    {operator : Comparison}
    {value : Bson}
    (compiled : (comparison field operator value).outcome = .ok part)
    (name : String) :
    name ∈ part.fields ↔ name = field ∧ value ≠ .array [] := by
  refine mem_fields_of_alternatives (fun value part single => ?_) compiled name
  rw [Compiled.outcome_result, Except.ok.injEq] at single
  rw [← single, Expression.fields]

theorem fields_of_pattern
    {value : Bson}
    (compiled : (pattern field value).outcome = .ok part) :
    part.fields = [field] := by
  rw [pattern] at compiled
  split at compiled
  · rw [Compiled.outcome_result, Except.ok.injEq] at compiled
    rw [← compiled, Expression.fields]
  · cases compiled

theorem fields_of_range
    {value : Bson}
    (compiled : (range field value).outcome = .ok part) :
    part.fields = [field] ∧ value ≠ .array [] := by
  unfold range at compiled
  split at compiled
  · split at compiled
    · cases compiled
      exact ⟨rfl, by simp⟩
    · cases compiled
      exact ⟨rfl, by simp⟩
  · cases compiled
  · cases compiled

theorem fields_of_elements
    {property : Option String}
    {value : Bson}
    (compiled : (elements field property value).outcome = .ok part) :
    part.fields = [field] := by
  unfold elements at compiled
  split at compiled
  · cases compiled
  · split at compiled
    · cases compiled
    · cases compiled
      rfl

/-- A condition constrains its own field and no other. -/
theorem mem_fields_of_compile
    {condition : Condition}
    (compiled : (condition.compile field).outcome = .ok part)
    (name : String) :
    name ∈ part.fields ↔ name = field ∧ ¬ condition.HasNoAlternative := by
  obtain ⟨value, mode, isRequired, property⟩ := condition
  cases mode with
  | contains =>
      simpa [HasNoAlternative] using
        mem_fields_of_alternatives (fun _ _ => fields_of_pattern) compiled name
  | equals =>
      have single (value : Bson) (part : Expression)
          (compiled :
            (Compiled.result (Expression.equal field value.toIdentifier)).outcome = .ok part) :
          part.fields = [field] := by
        cases compiled
        rfl
      simpa [HasNoAlternative] using mem_fields_of_alternatives single compiled name
  | between =>
      obtain ⟨fields, nonempty⟩ := fields_of_range compiled
      simp [fields, HasNoAlternative, nonempty]
  | arrayContains =>
      cases compiled
      simp [Expression.fields, HasNoAlternative]
  | arrayContainsObject =>
      simp [fields_of_elements compiled, HasNoAlternative]
  | notEquals | greaterThan | greaterThanOrEqual | lessThan | lessThanOrEqual | «exists» =>
      simpa [HasNoAlternative] using mem_fields_of_comparison compiled name

end Fields

end Condition

/-! ## The expressions of a side -/

namespace Filter

/-- The expression of a field's conditions, if they compile and there are any. -/
def expression?
    (field : String)
    (conditions : List Condition) :
    Option Expression :=
  match (compileField field conditions).outcome with
  | .ok expression => expression
  | .error _ => none

/-- The expressions that go to a side, in the order of the fields' names. -/
def expressions
    (filter : Filter)
    (wanted : Side) :
    List Expression :=
  (filter.entries.filter fun entry => side entry.1 entry.2 = wanted).filterMap fun entry =>
    expression? entry.1 entry.2

/-- All conditions of a filter compile. -/
def Compiles (filter : Filter) : Prop :=
  ∀ entry ∈ filter.entries, ∀ condition ∈ entry.2,
    ∃ part, (condition.compile entry.1).outcome = .ok part

theorem expression?_eq_of_compileField
    {field : String}
    {conditions : List Condition}
    {expression : Option Expression}
    (compiled : (compileField field conditions).outcome = .ok expression) :
    expression? field conditions = expression := by
  rw [expression?, compiled]

/-- A field's expression combines the required parts and the others. -/
theorem compileField_of_each
    {field : String}
    {conditions : List Condition}
    {parts : List Expression}
    (listed : (Compiled.each (Condition.compile field) conditions).outcome = .ok parts) :
    (compileField field conditions).outcome =
      .ok (combine (groups
        (((conditions.zip parts).filter (·.1.isRequired)).map (·.2))
        (((conditions.zip parts).filter (!·.1.isRequired)).map (·.2)))) := by
  rw [compileField, Compiled.outcome_andThen_result_eq_ok_iff]
  exact ⟨parts, listed, rfl⟩

/-- The fragments of a side are the documents of its expressions. -/
theorem map_toDocument_expressions
    {filter : Filter}
    (compiles : filter.Compiles)
    (wanted : Side) :
    (filter.expressions wanted).map Expression.toDocument = filter.fragments wanted := by
  rw [expressions, fragments, List.map_filterMap]
  refine List.filterMap_congr fun entry member => ?_
  obtain ⟨parts, listed⟩ :=
    Compiled.exists_outcome_each_of_forall (compiles entry (List.mem_of_mem_filter member))
  have compiled := compileField_of_each listed
  rw [expression?_eq_of_compileField compiled, (compileField_eq_ok compiled).2]

theorem exists_mem_fields_combine_iff
    (required optional : List Expression)
    (name : String) :
    (∃ expression, combine (groups required optional) = some expression ∧
        name ∈ expression.fields) ↔
      (∃ part ∈ required, name ∈ part.fields) ∨ ∃ part ∈ optional, name ∈ part.fields := by
  cases required <;> cases optional <;> simp [groups, combine]

/-- Required or not, every part counts. -/
theorem exists_mem_fields_split_iff
    (marked : List (Condition × Expression))
    (name : String) :
    ((∃ part ∈ (marked.filter (·.1.isRequired)).map (·.2), name ∈ part.fields) ∨
        ∃ part ∈ (marked.filter (!·.1.isRequired)).map (·.2), name ∈ part.fields) ↔
      ∃ pair ∈ marked, name ∈ pair.2.fields := by
  simp only [List.mem_map, List.mem_filter]
  constructor
  · rintro (⟨_, ⟨pair, ⟨member, -⟩, rfl⟩, constrains⟩ |
      ⟨_, ⟨pair, ⟨member, -⟩, rfl⟩, constrains⟩)
    · exact ⟨pair, member, constrains⟩
    · exact ⟨pair, member, constrains⟩
  · rintro ⟨pair, member, constrains⟩
    cases required : pair.1.isRequired with
    | true => exact .inl ⟨_, ⟨pair, ⟨member, required⟩, rfl⟩, constrains⟩
    | false => exact .inr ⟨_, ⟨pair, ⟨member, by simp [required]⟩, rfl⟩, constrains⟩

theorem exists_mem_fields_zip_iff
    {field : String}
    {conditions : List Condition}
    {parts : List Expression}
    (compiled :
      List.Forall₂ (fun condition part => (condition.compile field).outcome = .ok part)
        conditions parts)
    (name : String) :
    (∃ pair ∈ conditions.zip parts, name ∈ pair.2.fields) ↔
      name = field ∧ ∃ condition ∈ conditions, ¬ condition.HasNoAlternative := by
  induction compiled with
  | nil => simp
  | cons first rest induction =>
      rw [List.zip_cons_cons, List.exists_mem_cons_iff, List.exists_mem_cons_iff, induction,
        Condition.mem_fields_of_compile first]
      tauto

/-- The expression of a field constrains this field, unless no condition on it has an alternative. -/
theorem exists_mem_fields_expression?_iff
    {field : String}
    {conditions : List Condition}
    (compiles :
      ∀ condition ∈ conditions, ∃ part, (condition.compile field).outcome = .ok part)
    (name : String) :
    (∃ expression, expression? field conditions = some expression ∧ name ∈ expression.fields) ↔
      name = field ∧ ∃ condition ∈ conditions, ¬ condition.HasNoAlternative := by
  obtain ⟨parts, listed⟩ := Compiled.exists_outcome_each_of_forall compiles
  rw [expression?_eq_of_compileField (compileField_of_each listed), exists_mem_fields_combine_iff,
    exists_mem_fields_split_iff]
  exact exists_mem_fields_zip_iff ((Compiled.outcome_each_eq_ok_iff _ _ _).mp listed) name

theorem exists_mem_fields_expressions_iff
    {filter : Filter}
    (compiles : filter.Compiles)
    (wanted : Side)
    (name : String) :
    (∃ expression ∈ filter.expressions wanted, name ∈ expression.fields) ↔
      ∃ conditions, (name, conditions) ∈ filter.entries ∧ side name conditions = wanted ∧
        ∃ condition ∈ conditions, ¬ condition.HasNoAlternative := by
  simp only [expressions, List.mem_filterMap, List.mem_filter, decide_eq_true_eq]
  constructor
  · rintro ⟨expression, ⟨⟨field, conditions⟩, ⟨member, routed⟩, compiled⟩, constrains⟩
    obtain ⟨rfl, alternative⟩ :=
      (exists_mem_fields_expression?_iff (compiles _ member) name).mp
        ⟨expression, compiled, constrains⟩
    exact ⟨conditions, member, routed, alternative⟩
  · rintro ⟨conditions, member, routed, alternative⟩
    obtain ⟨expression, compiled, constrains⟩ :=
      (exists_mem_fields_expression?_iff (compiles _ member) name).mpr ⟨rfl, alternative⟩
    exact ⟨expression, ⟨(name, conditions), ⟨member, routed⟩, compiled⟩, constrains⟩

end Filter

namespace QuickSearch

/-- The expression of a quick search on its side; a search in no field has none. -/
def expressions
    (quick : QuickSearch)
    (wanted : Side) :
    List Expression :=
  if quick.fields ≠ [] ∧ quick.side = wanted then [quick.expression] else []

theorem map_toDocument_expressions
    (quick : QuickSearch)
    (wanted : Side) :
    (quick.expressions wanted).map Expression.toDocument = quick.fragments wanted := by
  rw [expressions, fragments]
  split
  · rename_i here
    rw [List.map_singleton, toDocument_expression here.1]
  · rfl

theorem exists_mem_fields_expressions_iff
    (quick : QuickSearch)
    (wanted : Side)
    (name : String) :
    (∃ expression ∈ quick.expressions wanted, name ∈ expression.fields) ↔
      name ∈ quick.fields ∧ quick.side = wanted := by
  have constrains : name ∈ quick.expression.fields ↔ name ∈ quick.fields := by
    rw [expression, Expression.mem_fields_any]
    simp [Expression.fields]
  rw [expressions]
  split
  · rename_i here
    simp [constrains, here.2]
  · rename_i elsewhere
    simp only [List.not_mem_nil, false_and, exists_false, false_iff]
    rintro ⟨member, routed⟩
    exact elsewhere ⟨List.ne_nil_of_mem member, routed⟩

end QuickSearch

/-! ## The first match -/

/-- The condition of the first match of a pipeline. -/
def Stage.firstCondition? (pipeline : List Document) : Option Document :=
  (pipeline.filterMap (Document.getDocument? · "$match")).head?

theorem Stage.firstCondition?_append_matching
    {unmatched following : List Document}
    {condition : Document}
    (none : ∀ stage ∈ unmatched, Document.getDocument? stage "$match" = none) :
    firstCondition? (unmatched ++ matching condition :: following) = some condition := by
  have skipped : unmatched.filterMap (Document.getDocument? · "$match") = [] :=
    List.filterMap_eq_nil_iff.mpr none
  rw [firstCondition?, List.filterMap_append, skipped, List.nil_append]
  rfl

theorem Projection.getDocument?_match_of_mem_stages
    (settings : Settings)
    (search : Search)
    (following : List Document) :
    ∀ stage ∈ stages settings search following,
      Document.getDocument? stage "$match" = none := by
  intro stage member
  rw [stages] at member
  split at member
  · cases member
  · rw [List.mem_singleton.mp member]
    rfl

namespace Search

/-- The expressions of a search on a side: those of its filter, then that of its quick search. -/
def expressions
    (search : Search)
    (wanted : Side) :
    List Expression :=
  (search.filter.map (·.expressions wanted)).getD [] ++
    (search.quick.map (·.expressions wanted)).getD []

section Compiles

variable {search : Search}
  (compiles : ∀ filter, search.filter = some filter → filter.Compiles)
  (wanted : Side)

include compiles

/-- Without extra conditions a match asks for the expressions of its side. -/
theorem matchDocument_eq_conjunction :
    search.matchDocument {} wanted =
      Document.conjunction ((search.expressions wanted).map Expression.toDocument) := by
  have noExtra : (({} : Conditions).on wanted) = none := by
    cases wanted <;> rfl
  cases filtered : search.filter with
  | none =>
      cases found : search.quick <;>
        simp [matchDocument, members, expressions, filtered, found, noExtra,
          QuickSearch.map_toDocument_expressions, Document.conjunction]
  | some filter =>
      have rendered := Filter.map_toDocument_expressions (compiles filter filtered) wanted
      cases found : search.quick <;>
        simp [matchDocument, members, expressions, filtered, found, noExtra, rendered,
          QuickSearch.map_toDocument_expressions]

/-- A side constrains the fields that are routed to it, apart from those without an alternative. -/
theorem exists_mem_fields_expressions_iff
    (name : String) :
    (∃ expression ∈ search.expressions wanted, name ∈ expression.fields) ↔
      (∃ filter conditions, search.filter = some filter ∧ (name, conditions) ∈ filter.entries ∧
          Filter.side name conditions = wanted ∧
          ∃ condition ∈ conditions, ¬ condition.HasNoAlternative) ∨
        ∃ quick, search.quick = some quick ∧ name ∈ quick.fields ∧ quick.side = wanted := by
  simp only [expressions, List.mem_append, or_and_right, exists_or]
  refine or_congr ?_ ?_
  · cases filtered : search.filter with
    | none => simp
    | some filter =>
        simpa using Filter.exists_mem_fields_expressions_iff (compiles filter filtered) wanted name
  · cases found : search.quick with
    | none => simp
    | some quick => simpa using quick.exists_mem_fields_expressions_iff wanted name

/-- The first match leaves a field alone exactly if whatever may constrain it waits for the joins. -/
theorem not_mem_fields_before_iff
    (name : String) :
    (∀ expression ∈ search.expressions .before, name ∉ expression.fields) ↔
      (∀ filter conditions, search.filter = some filter → (name, conditions) ∈ filter.entries →
          Filter.side name conditions = .after ∨
            ∀ condition ∈ conditions, condition.HasNoAlternative) ∧
        ∀ quick, search.quick = some quick → name ∈ quick.fields → quick.side = .after := by
  have constrains := exists_mem_fields_expressions_iff compiles .before name
  constructor
  · intro free
    have unrouted : ¬ ∃ expression ∈ search.expressions .before, name ∈ expression.fields := by
      rintro ⟨expression, member, constrained⟩
      exact free expression member constrained
    rw [constrains, not_or] at unrouted
    refine ⟨fun filter conditions filters entry => ?_, fun quick searches member => ?_⟩
    · cases routed : Filter.side name conditions with
      | after => exact .inl rfl
      | before =>
          refine .inr fun condition member => ?_
          by_contra alternative
          exact unrouted.1
            ⟨filter, conditions, filters, entry, routed, condition, member, alternative⟩
    · cases routed : quick.side with
      | after => rfl
      | before => exact (unrouted.2 ⟨quick, searches, member, routed⟩).elim
  · rintro ⟨filterRouted, quickRouted⟩ expression member constrained
    rcases constrains.mp ⟨expression, member, constrained⟩ with
      ⟨filter, conditions, filters, entry, here, condition, given, alternative⟩ |
      ⟨quick, searches, given, here⟩
    · rcases filterRouted filter conditions filters entry with after | none
      · rw [here] at after
        cases after
      · exact alternative (none condition given)
    · rw [quickRouted quick searches given] at here
      cases here

end Compiles

/--
The first match constrains no field that is named like a join exactly if each such field of the
filter has a dot in its path, a condition on the objects of a list or no condition with an
alternative, and a quick search in such a field is in a field with a dot too.
-/
theorem compile_constrains_no_target_iff
    (settings : Settings)
    (search : Search)
    (joins : List Document)
    (skipsSort : Bool)
    (pipeline : List Document)
    (compiled : (search.compile settings joins {} skipsSort).outcome = .ok pipeline) :
    Stage.firstCondition? pipeline =
        some (Document.conjunction
          ((search.expressions .before).map Expression.toDocument)) ∧
      ((∀ expression ∈ search.expressions .before, ∀ field ∈ expression.fields,
          field ∉ Stage.joinTargets joins) ↔
        ∀ target ∈ Stage.joinTargets joins,
          (∀ filter conditions, search.filter = some filter →
            (target, conditions) ∈ filter.entries →
              Filter.side target conditions = .after ∨
                ∀ condition ∈ conditions, condition.HasNoAlternative) ∧
          ∀ quick, search.quick = some quick → target ∈ quick.fields → quick.side = .after) := by
  obtain ⟨compiles, following, listed, joined⟩ := compile_eq_ok compiled
  constructor
  · rw [joined, ← matchDocument_eq_conjunction compiles]
    subst listed
    exact Stage.firstCondition?_append_matching
      (Projection.getDocument?_match_of_mem_stages settings search _)
  constructor
  · intro unconstrained target isTarget
    refine (not_mem_fields_before_iff compiles target).mp ?_
    intro expression member constrains
    exact unconstrained expression member target constrains isTarget
  · intro routed expression member field constrains isTarget
    have free := (not_mem_fields_before_iff compiles field).mpr (routed field isTarget)
    exact free expression member constrains

/-- A join of the departments of a row. -/
def departmentStage : Document :=
  [("$lookup", .document
    [("from", .string "departments"), ("localField", .string "deptId"),
      ("foreignField", .string "_id"), ("as", .string "dept")])]

/-- A search by a condition on the departments of a row, and by a text in some fields. -/
def byDepartment
    (condition : Condition)
    (fields : List String) :
    Search where
  filter := some { entries := [("dept", [condition])], sorted := List.pairwise_singleton _ _ }
  quick := some { value := "sales", fields }

/-- A condition on the objects of the list and a second field with a dot wait for the join. -/
theorem compile_constrains_no_target_structural :
    ∃ pipeline,
      (compile {}
          (byDepartment
            { value := .string "sales", mode := .arrayContainsObject, property := some "name" }
            ["dept", "dept.name"])
          [departmentStage] {} false).outcome = .ok pipeline ∧
        ∀ expression ∈
          (byDepartment
            { value := .string "sales", mode := .arrayContainsObject, property := some "name" }
            ["dept", "dept.name"]).expressions .before,
          ∀ field ∈ expression.fields, field ∉ Stage.joinTargets [departmentStage] := by
  refine ⟨_, rfl, (compile_constrains_no_target_iff {} _ [departmentStage] false _ rfl).2.mpr ?_⟩
  intro target isTarget
  cases List.mem_singleton.mp isTarget
  constructor
  · rintro filter conditions filters entry
    cases filters
    cases List.mem_singleton.mp entry
    exact .inl rfl
  · rintro quick searches -
    cases searches
    rfl

open Document in
/-- Any other condition on the joined field, and a search in this field alone, come before the join. -/
theorem compile_constrains_target :
    ∃ pipeline,
      (compile {} (byDepartment { value := .boolean true, mode := .exists } ["dept"])
          [departmentStage] {} false).outcome = .ok pipeline ∧
        Stage.firstCondition? pipeline =
          some (group "$and"
            [group "$or" [[("dept", Bson.entry "$exists" (.boolean true))]],
              group "$or"
                [[("dept",
                  .document [("$regex", .string "sales"), ("$options", .string "i")])]]]) ∧
        "dept" ∈ Stage.joinTargets [departmentStage] ∧
        ∀ expression ∈
          (byDepartment { value := .boolean true, mode := .exists } ["dept"]).expressions .before,
          "dept" ∈ expression.fields := by
  refine ⟨_, rfl, rfl, List.mem_cons_self, ?_⟩
  decide

end Search

end SearchPipeline
