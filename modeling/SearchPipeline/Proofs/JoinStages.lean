import SearchPipeline.Proofs.CollapsedPaths
import SearchPipeline.Proofs.KeptFields
import SearchPipeline.Proofs.Stage

/-!
# The stages of a join

A join is one lookup, and a second stage that flattens what it finds unless this stays a list.
Within the lookup stand the stages of the nested joins and at most one projection.  It is there
exactly if a search narrows the join, and its keys are the least of the reduced forms: those
below no other one, in the order in which the search first reads them.
-/

namespace SearchPipeline.Join

/-- The fields to which a search narrows a join are the least of the reduced forms. -/
theorem leastOf_keptFields
    {nested : List Document}
    {search : Search}
    {select : List SelectedField}
    {start : String}
    {fields : List String}
    (selects : search.select = some select)
    (narrows : Narrows (Stage.joinTargets nested) search start)
    (forms :
      ReducedForms (Stage.joinTargets nested) start (search.listedPaths select) fields) :
    FieldPath.LeastOf fields (keptFields nested search start) := by
  rw [keptFields_of_not_selects selects
    ((forall_isStem_not_selects_iff search start).mp narrows.inParts) forms]
  exact FieldPath.leastOf_collapse fields

/-- The stages of a join in full, given those that stand within its lookup. -/
theorem stages_eq_of_innerStages
    (join : Join)
    {nested inner : List Document}
    {kept : List String}
    (within : innerStages nested kept = inner) :
    join.stages nested kept =
      [("$lookup",
        .document
          ([("from", .string join.collection), ("localField", .string join.localField),
              ("foreignField", .string join.foreignField), ("as", .string join.target)] ++
            if inner = [] then [] else [("pipeline", .array (inner.map .document))]))] ::
        (if join.isArray then []
        else
          [[("$set",
            .document
              [(join.target,
                .document
                  [("$arrayElemAt", .array [.string ("$" ++ join.target), .int32 0])])])]]) := by
  simp only [stages, lookup, flatten, Bson.entry, within, List.isEmpty_iff]

/--
Whatever joins are nested in it and whatever the search reads, a join is one lookup with its four
names, which is followed by a stage that flattens what is found unless this stays a list.  The
lookup has the nested stages within it, then one projection exactly if the search narrows the
join, and no inner pipeline if there are neither.  The names of the nested joins stand for what
lies below them.  The projection has as keys the reduced forms that are below no other one, each
once and in the order in which they first occur.
-/
theorem stagesFor_keeps_least
    (join : Join)
    (nested : List Document)
    (search : Option Search)
    (start : Option String) :
    ∃ (targets : List String) (inner projections : List Document),
      (∀ target,
        target ∈ targets ↔
          ∃ stage ∈ nested, ∃ lookup, Document.get? stage "$lookup" = some (.document lookup) ∧
            Document.get? lookup "as" = some (.string target)) ∧
      join.stagesFor nested search start =
        [("$lookup",
          .document
            ([("from", .string join.collection), ("localField", .string join.localField),
                ("foreignField", .string join.foreignField), ("as", .string join.target)] ++
              if inner = [] then [] else [("pipeline", .array (inner.map .document))]))] ::
          (if join.isArray then []
          else
            [[("$set",
              .document
                [(join.target,
                  .document
                    [("$arrayElemAt", .array [.string ("$" ++ join.target), .int32 0])])])]]) ∧
      inner = nested ++ projections ∧
      ((projections = [] ∧
          ∀ found, search = some found →
            ¬ Narrows targets found (start.getD (join.target ++ "."))) ∨
        ∃ (found : Search) (select : List SelectedField) (fields keys : List String),
          search = some found ∧ found.select = some select ∧
            Narrows targets found (start.getD (join.target ++ ".")) ∧
            projections = [[("$project", .document (keys.map fun key => (key, .int32 1)))]] ∧
            ReducedForms targets (start.getD (join.target ++ ".")) (found.listedPaths select)
              fields ∧
            FieldPath.LeastOf fields keys) := by
  have targets := Stage.mem_joinTargets_iff nested
  cases search with
  | none =>
      have within : innerStages nested [] = nested ++ [] := rfl
      exact ⟨_, _, [], targets, join.stages_eq_of_innerStages within, rfl, .inl ⟨rfl, by simp⟩⟩
  | some found =>
      -- Which start the paths have does not matter from here on.
      generalize described : start.getD (join.target ++ ".") = around
      have kept : join.stagesFor nested (some found) start =
          join.stages nested (keptFields nested found around) := by
        rw [← described]
        rfl
      rw [kept]
      by_cases narrows : Narrows (Stage.joinTargets nested) found around
      · obtain ⟨select, selects⟩ := Option.ne_none_iff_exists'.mp narrows.selects
        obtain ⟨fields, forms⟩ :=
          exists_reducedForms (Stage.joinTargets nested) around (found.listedPaths select)
        have least := leastOf_keptFields selects narrows forms
        have named : keptFields nested found around ≠ [] := by
          rw [Ne, keptFields_eq_nil_iff]
          exact not_not_intro narrows
        have within : innerStages nested (keptFields nested found around) =
            nested ++
              [[("$project",
                .document (Document.inclusion (keptFields nested found around)))]] := by
          rw [innerStages, ← Stage.project_of_nodup least.once]
          simp [named]
        exact ⟨_, _, _, targets, join.stages_eq_of_innerStages within, rfl,
          .inr ⟨found, select, fields, _, rfl, selects, narrows, rfl, forms, least⟩⟩
      · have within : innerStages nested (keptFields nested found around) = nested ++ [] := by
          rw [(keptFields_eq_nil_iff nested found around).mpr narrows]
          rfl
        refine ⟨_, _, [], targets, join.stages_eq_of_innerStages within, rfl, .inl ⟨rfl, ?_⟩⟩
        rintro _ ⟨⟩
        exact narrows

/-- A join that puts the lead of a row in its place. -/
def lead : Join where
  collection := "staff"
  localField := "leadId"
  foreignField := "_id"
  target := "lead"

/-- A join of the departments of a lead. -/
def leadStages : List Document :=
  [[("$lookup", .document [("from", .string "departments"), ("as", .string "dept")])]]

/-- A search that reads the name of a lead, a part of the name, and two fields of departments. -/
def showingLead : Search where
  select := some <|
    ["lead.name", "lead.dept.title", "lead.name.first", "lead.dept.head"].map fun field =>
      { field, isExternal := true }
  sortKey := some "lead.age"

/-- The part is covered by the name, and the department is kept once for both of its fields. -/
theorem stagesFor_keeps_least_lead :
    ∃ targets fields,
      (∀ target, target ∈ targets ↔ target = "dept") ∧
        Narrows targets showingLead "lead." ∧
        ReducedForms targets "lead."
          ["lead.name", "lead.dept.title", "lead.name.first", "lead.dept.head", "lead.age"] fields ∧
        FieldPath.LeastOf fields ["name", "dept", "age"] := by
  have kept : keptFields leadStages showingLead lead.start = ["name", "dept", "age"] := by
    decide +kernel
  have staged :
      lead.stagesFor leadStages (some showingLead) none =
        [[("$lookup",
          .document
            (lead.lookup
              (leadStages ++
                [[("$project",
                  .document [("name", .int32 1), ("dept", .int32 1), ("age", .int32 1)])]])))],
          lead.flatten] :=
    congrArg (lead.stages leadStages) kept
  obtain ⟨targets, inner, projections, joined, described, within, narrowed⟩ :=
    stagesFor_keeps_least lead leadStages (some showingLead) none
  have named : inner ≠ [] := by simp [within, leadStages]
  rw [staged, if_neg named, within] at described
  have listed :
      [Bson.document
          [("$project", .document [("name", .int32 1), ("dept", .int32 1), ("age", .int32 1)])]] =
        projections.map .document := by
    simpa [lookup, lead, flatten, Bson.entry] using described
  have projected :
      projections =
        [[("$project",
          .document [("name", .int32 1), ("dept", .int32 1), ("age", .int32 1)])]] := by
    simpa [List.map_eq_cons_iff] using listed.symm
  rcases narrowed with
    ⟨none, -⟩ | ⟨found, select, fields, keys, same, selects, narrows, keyed, forms, least⟩
  · rw [none] at projected
    cases projected
  · cases same
    cases selects
    have keys_eq : keys = ["name", "dept", "age"] := by
      rw [keyed] at projected
      simpa [List.map_eq_cons_iff] using projected
    have started : (none : Option String).getD (lead.target ++ ".") = "lead." := by
      simp [lead]
    have named (target : String) : target ∈ targets ↔ target = "dept" := by
      rw [joined]
      simp [leadStages, Document.get?, eq_comm]
    rw [started] at narrows forms
    exact ⟨targets, fields, named, narrows, forms, keys_eq ▸ least⟩

end SearchPipeline.Join
