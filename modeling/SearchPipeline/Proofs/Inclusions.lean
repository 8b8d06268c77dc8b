import SearchPipeline.Proofs.JoinTree
import SearchPipeline.Proofs.Layout
import SearchPipeline.Proofs.Projection

/-!
# Projections that a database accepts

A projection has to name a field, none twice, and none below another one.  A join ends in
a projection only if there is something to keep, so that the projections of joins, however
deep, are such inclusions.  The projection at the start of a pipeline stands there for every
selection; it names no field if nothing that is needed has a name.
-/

namespace SearchPipeline

/-! ## Paths that one projection can name -/

namespace FieldPath

/-- Paths that a projection can name together: none is empty, repeated, or below another one. -/
structure Independent (paths : List String) : Prop where
  named : ∀ path ∈ paths, path ≠ ""
  distinct : paths.Nodup
  apart : ∀ upper ∈ paths, ∀ lower ∈ paths, ¬ ∃ rest, lower = upper ++ "." ++ rest

theorem independent_nil : Independent [] where
  named := by simp
  distinct := List.nodup_nil
  apart := by simp

theorem independent_collapse
    (paths : List String) :
    Independent (collapse paths) where
  named path kept := ((mem_collapse paths path).mp kept).2.1
  distinct := nodup_collapse paths
  apart upper upperKept lower lowerKept := by
    rw [← isAncestor_iff_append, Bool.not_eq_true]
    exact not_isAncestor_of_mem_collapse upperKept lowerKept

/-- Nothing is left of some paths exactly if all of them are empty. -/
theorem collapse_eq_nil_iff
    (paths : List String) :
    collapse paths = [] ↔ ∀ path ∈ paths, path = "" := by
  constructor
  · intro none path member
    by_contra nonempty
    rcases exists_covers_of_mem member nonempty with ⟨key, kept, -⟩
    rw [none] at kept
    cases kept
  · intro empty
    apply List.eq_nil_iff_forall_not_mem.mpr
    intro path kept
    have listed := (mem_collapse paths path).mp kept
    exact listed.2.1 (empty path listed.1)

end FieldPath

theorem Join.independent_keptFields
    (nested : List Document)
    (search : Search)
    (start : String) :
    FieldPath.Independent (keptFields nested search start) := by
  rw [keptFields]
  split
  · exact FieldPath.independent_nil
  · split
    · exact FieldPath.independent_nil
    · exact FieldPath.independent_collapse _

/-! ## Stages and the stages within them -/

namespace Stage

/-- A stage projects if it has the key of a projection. -/
def Projects (stage : Document) : Prop :=
  "$project" ∈ Document.keys stage

/-- A stage is the projection that includes some fields: each with the number one, in order. -/
def Includes (fields : List String) (stage : Document) : Prop :=
  stage = [("$project", .document (fields.map fun field => (field, .int32 1)))]

/-- A projection that a database accepts: it includes a field, and no two that conflict. -/
def IsInclusion (stage : Document) : Prop :=
  ∃ fields, fields ≠ [] ∧ FieldPath.Independent fields ∧ Includes fields stage

/-- A stage that is one of some stages, or that stands within a join among them, however deep. -/
inductive Within : List Document → Document → Prop where
  | here
      {stages : List Document}
      {stage : Document}
      (member : stage ∈ stages) :
      Within stages stage
  | inside
      {stages : List Document}
      {outer lookup stage : Document}
      (member : outer ∈ stages)
      (joined : lookup? outer = some lookup)
      (below : Within (inner lookup) stage) :
      Within stages stage

/-- Every stage that projects, among some stages or within them, is an accepted projection. -/
def InclusionsOnly (stages : List Document) : Prop :=
  ∀ stage, Within stages stage → Projects stage → IsInclusion stage

theorem includes_project
    {fields : List String}
    (distinct : fields.Nodup) :
    Includes fields (project fields) :=
  project_of_nodup distinct

theorem Includes.unique
    {stage : Document}
    {left right : List String}
    (first : Includes left stage)
    (second : Includes right stage) :
    left = right := by
  have keys (fields : List String) :
      (fields.map fun field => (field, Bson.int32 1)).map (·.1) = fields := by
    simp [Function.comp_def]
  rw [Includes, first] at second
  simp only [List.cons.injEq, Prod.mk.injEq, Bson.document.injEq, and_true, true_and] at second
  rw [← keys left, second, keys right]

/-- The projection of fields that can stand together is accepted exactly if there are any. -/
theorem isInclusion_project_iff
    {fields : List String}
    (independent : FieldPath.Independent fields) :
    IsInclusion (project fields) ↔ fields ≠ [] := by
  constructor
  · rintro ⟨others, filled, -, includes⟩
    rwa [(includes_project independent.distinct).unique includes]
  · intro filled
    exact ⟨fields, filled, independent, includes_project independent.distinct⟩

theorem Within.mono
    {stages others : List Document}
    {stage : Document}
    (within : Within stages stage)
    (included : ∀ other ∈ stages, other ∈ others) :
    Within others stage := by
  cases within with
  | here member => exact .here (included _ member)
  | inside member joined below => exact .inside (included _ member) joined below

theorem within_append_iff
    (front back : List Document)
    (stage : Document) :
    Within (front ++ back) stage ↔ Within front stage ∨ Within back stage := by
  constructor
  · intro within
    cases within with
    | here member =>
        rcases List.mem_append.mp member with first | second
        · exact Or.inl (.here first)
        · exact Or.inr (.here second)
    | inside member joined below =>
        rcases List.mem_append.mp member with first | second
        · exact Or.inl (.inside first joined below)
        · exact Or.inr (.inside second joined below)
  · rintro (first | second)
    · exact first.mono fun _ member => List.mem_append_left back member
    · exact second.mono fun _ member => List.mem_append_right front member

/-- A single stage that is no join has nothing within it. -/
theorem within_singleton_iff
    {outer : Document}
    (unjoined : lookup? outer = none)
    (stage : Document) :
    Within [outer] stage ↔ stage = outer := by
  constructor
  · intro within
    cases within with
    | here member => exact List.mem_singleton.mp member
    | inside member joined _ =>
        rw [List.mem_singleton.mp member, unjoined] at joined
        cases joined
  · rintro rfl
    exact .here (List.mem_singleton_self stage)

theorem inclusionsOnly_nil : InclusionsOnly [] := by
  intro stage within
  cases within with
  | here member => cases member
  | inside member => cases member

theorem inclusionsOnly_append_iff
    (front back : List Document) :
    InclusionsOnly (front ++ back) ↔ InclusionsOnly front ∧ InclusionsOnly back := by
  simp only [InclusionsOnly, within_append_iff, or_imp, forall_and]

theorem InclusionsOnly.append
    {front back : List Document}
    (first : InclusionsOnly front)
    (second : InclusionsOnly back) :
    InclusionsOnly (front ++ back) :=
  (inclusionsOnly_append_iff front back).mpr ⟨first, second⟩

theorem inclusionsOnly_of_not_projects
    {outer : Document}
    (unjoined : lookup? outer = none)
    (unprojected : ¬ Projects outer) :
    InclusionsOnly [outer] := by
  intro stage within projects
  rw [(within_singleton_iff unjoined stage).mp within] at projects
  exact (unprojected projects).elim

theorem inclusionsOnly_project_iff
    {fields : List String}
    (independent : FieldPath.Independent fields) :
    InclusionsOnly [project fields] ↔ fields ≠ [] := by
  rw [← isInclusion_project_iff independent]
  constructor
  · intro accepted
    exact accepted _ (.here (List.mem_singleton_self _)) List.mem_cons_self
  · intro accepted stage within _
    rwa [(within_singleton_iff (lookup?_project fields) stage).mp within]

theorem inclusionsOnly_matching (condition : Document) : InclusionsOnly [matching condition] :=
  inclusionsOnly_of_not_projects rfl (by simp [Projects, Document.keys, matching])

end Stage

/-! ## Joins -/

theorem Search.inclusionsOnly_sortStages
    (search : Search)
    (skipsSort : Bool) :
    Stage.InclusionsOnly (search.sortStages skipsSort) := by
  rcases search.sortStages_eq skipsSort with ⟨-, key, -, -, sorted⟩ | ⟨-, none⟩
  · rw [sorted]
    exact Stage.inclusionsOnly_of_not_projects rfl (by simp [Stage.Projects, Document.keys])
  · rw [none]
    exact Stage.inclusionsOnly_nil

namespace Join

/-- The stages of a join add a projection to those within it only if there is something to keep. -/
theorem inclusionsOnly_stages
    (join : Join)
    {nested : List Document}
    {kept : List String}
    (below : Stage.InclusionsOnly nested)
    (independent : FieldPath.Independent kept) :
    Stage.InclusionsOnly (join.stages nested kept) := by
  have ending : Stage.InclusionsOnly (if kept.isEmpty then [] else [Stage.project kept]) := by
    split
    · exact Stage.inclusionsOnly_nil
    · rename_i filled
      exact (Stage.inclusionsOnly_project_iff independent).mpr (by simpa using filled)
  have described :
      Stage.InclusionsOnly
        [[("$lookup", .document (join.lookup (innerStages nested kept)))]] := by
    intro stage within projects
    cases within with
    | here member =>
        rw [List.mem_singleton.mp member] at projects
        simp [Stage.Projects, Document.keys] at projects
    | inside member joined within =>
        rw [List.mem_singleton.mp member] at joined
        cases joined
        rw [inner_lookup] at within
        exact below.append ending stage within projects
  have flattened : Stage.InclusionsOnly (if join.isArray then [] else [join.flatten]) := by
    split
    · exact Stage.inclusionsOnly_nil
    · exact Stage.inclusionsOnly_of_not_projects (lookup?_flatten join)
        (by simp [Stage.Projects, Document.keys, flatten])
  exact described.append flattened

end Join

namespace JoinTree

mutual

theorem inclusionsOnly_stages
    (search : Search)
    (around : String)
    (tree : JoinTree) :
    Stage.InclusionsOnly (stages search around tree) := by
  cases tree with
  | node join nested =>
      rw [stages, Join.stagesFor]
      exact Join.inclusionsOnly_stages join (inclusionsOnly_listStages search _ nested)
        (Join.independent_keptFields _ _ _)
termination_by structural tree

/-- Whatever the search reads, the projections at the ends of joins are accepted, at every depth. -/
theorem inclusionsOnly_listStages
    (search : Search)
    (around : String)
    (trees : List JoinTree) :
    Stage.InclusionsOnly (listStages search around trees) := by
  cases trees with
  | nil => exact Stage.inclusionsOnly_nil
  | cons tree trees =>
      rw [listStages]
      exact (inclusionsOnly_stages search around tree).append
        (inclusionsOnly_listStages search around trees)
termination_by structural trees

end

end JoinTree

/-! ## Pipelines -/

namespace Projection

variable (settings : Settings) {search : Search} {select : List SelectedField}
  (following : List Document)

theorem stages_of_select
    (selects : search.select = some select) :
    stages settings search following =
      [Stage.project (FieldPath.collapse (neededFields settings search select following))] := by
  rw [stages, selects]

variable {settings following}

/-- In front of a pipeline stands nothing but the projection of a search that selects fields. -/
theorem exists_of_within_stages
    {stage : Document}
    (within : Stage.Within (stages settings search following) stage) :
    ∃ select, search.select = some select ∧
      stage =
        Stage.project (FieldPath.collapse (neededFields settings search select following)) := by
  cases selects : search.select with
  | none =>
      rw [stages, selects] at within
      cases within with
      | here member => cases member
      | inside member => cases member
  | some select =>
      rw [stages_of_select settings following selects] at within
      exact ⟨select, rfl, (Stage.within_singleton_iff (Stage.lookup?_project _) stage).mp within⟩

/-- What stands in front is accepted exactly if a selection always comes with a named field. -/
theorem inclusionsOnly_stages_iff :
    Stage.InclusionsOnly (stages settings search following) ↔
      ∀ select, search.select = some select →
        ∃ path ∈ neededFields settings search select following, path ≠ "" := by
  cases selects : search.select with
  | none =>
      rw [stages, selects]
      simp [Stage.inclusionsOnly_nil]
  | some select =>
      rw [stages_of_select settings following selects,
        Stage.inclusionsOnly_project_iff (FieldPath.independent_collapse _), Ne,
        FieldPath.collapse_eq_nil_iff]
      simp

end Projection

namespace Request

/--
A stage that a pipeline has in front of the request's further stages or after them, or that
stands within a join there: one that was not given with the request.
-/
def Emits
    (request : Request)
    (pipeline : List Document)
    (stage : Document) :
    Prop :=
  ∃ front back,
    pipeline = front ++ request.stages ++ back ∧ Stage.Within (front ++ back) stage

/-- Wherever the further stages are found in a pipeline, the same stages stand around them. -/
theorem emits_iff
    {request : Request}
    {pipeline front back : List Document}
    (divided : pipeline = front ++ request.stages ++ back)
    (stage : Document) :
    request.Emits pipeline stage ↔ Stage.Within (front ++ back) stage := by
  constructor
  · rintro ⟨otherFront, otherBack, otherDivided, within⟩
    have moved (left right : List Document) :
        (left ++ request.stages ++ right).Perm (request.stages ++ (left ++ right)) := by
      rw [← List.append_assoc]
      exact List.perm_append_comm.append_right right
    have same : (otherFront ++ otherBack).Perm (front ++ back) := by
      apply (List.perm_append_left_iff request.stages).mp
      apply (moved otherFront otherBack).symm.trans
      rw [← otherDivided, divided]
      exact moved front back
    exact within.mono fun _ member => same.mem_iff.mp member
  · intro within
    exact ⟨front, back, divided, within⟩

theorem emits_iff_within
    {request : Request}
    (plain : request.stages = [])
    (pipeline : List Document)
    (stage : Document) :
    request.Emits pipeline stage ↔ Stage.Within pipeline stage := by
  have divided : pipeline = pipeline ++ request.stages ++ [] := by
    simp [plain]
  simpa using emits_iff divided stage

theorem mem_neededFields_following_iff
    {settings : Settings}
    {request : Request}
    {select : List SelectedField}
    {before after : Document}
    {following : List Document}
    (listed :
      following =
        Stage.matching before :: request.joinSection ++
          Stage.matching after :: request.search.sortStages request.skipsSort)
    (path : String) :
    path ∈ Projection.neededFields settings request.search select following ↔
      Projection.Needs settings request.search select request.joinSection path := by
  rw [← Projection.mem_neededFields_iff, listed, Projection.neededFields,
    Search.joinLocalFields_around, Projection.neededFields]

/--
The stages of a compiled request: the projection in front, if fields are selected, then
stages that hold accepted projections only, the further stages, and again such stages.
-/
theorem compile_divided
    {settings : Settings}
    {request : Request}
    {pipeline : List Document}
    (compiled : (request.compile settings).outcome = .ok pipeline) :
    ∃ following front back,
      pipeline =
          Projection.stages settings request.search following ++ front ++ request.stages ++ back ∧
        Stage.InclusionsOnly front ∧ Stage.InclusionsOnly back ∧
        ∀ select path,
          path ∈ Projection.neededFields settings request.search select following ↔
            Projection.Needs settings request.search select request.joinSection path := by
  obtain ⟨-, following, listed, joined⟩ := Search.compile_eq_ok compiled
  refine
    ⟨following,
      [Stage.matching (request.search.matchDocument request.extras .before)] ++
        JoinTree.listStages request.search "" request.joins,
      [Stage.matching (request.search.matchDocument request.extras .after)] ++
        request.search.sortStages request.skipsSort, ?_, ?_, ?_, ?_⟩
  · have divided := congrArg (Projection.stages settings request.search following ++ ·) listed
    rw [joined]
    apply divided.trans
    simp [joinSection]
  · exact (Stage.inclusionsOnly_matching _).append
      (JoinTree.inclusionsOnly_listStages request.search "" request.joins)
  · exact (Stage.inclusionsOnly_matching _).append
      (request.search.inclusionsOnly_sortStages request.skipsSort)
  · intro select path
    exact mem_neededFields_following_iff listed path

/--
Every projection that compiling puts into a pipeline includes fields of which none is empty,
repeated, or below another one, and if it includes none at all, it is the pipeline's first
stage.  All of them are accepted exactly if a search that selects fields has something to be
kept that is not empty.
-/
theorem compile_emits_inclusions_iff
    (settings : Settings)
    (request : Request)
    (pipeline : List Document)
    (compiled : (request.compile settings).outcome = .ok pipeline) :
    (∀ stage, request.Emits pipeline stage → Stage.Projects stage →
      ∃ fields, FieldPath.Independent fields ∧ Stage.Includes fields stage ∧
        (fields = [] → pipeline.head? = some stage)) ∧
      ((∀ stage, request.Emits pipeline stage → Stage.Projects stage →
          Stage.IsInclusion stage) ↔
        ∀ select, request.search.select = some select →
          ∃ path,
            Projection.Needs settings request.search select request.joinSection path ∧
              path ≠ "") := by
  obtain ⟨following, front, back, divided, first, last, needed⟩ := compile_divided compiled
  have others : Stage.InclusionsOnly (front ++ back) := first.append last
  have emitted (stage : Document) :
      request.Emits pipeline stage ↔
        Stage.Within
          (Projection.stages settings request.search following ++ (front ++ back)) stage := by
    rw [emits_iff divided, List.append_assoc]
  constructor
  · intro stage emits projects
    rcases (Stage.within_append_iff _ _ stage).mp ((emitted stage).mp emits) with top | other
    · rcases Projection.exists_of_within_stages top with ⟨select, selects, rfl⟩
      have independent := FieldPath.independent_collapse
        (Projection.neededFields settings request.search select following)
      refine ⟨_, independent, Stage.includes_project independent.distinct, fun _ => ?_⟩
      rw [divided, Projection.stages_of_select settings following selects]
      rfl
    · rcases others stage other projects with ⟨fields, filled, independent, includes⟩
      exact ⟨fields, independent, includes, fun none => (filled none).elim⟩
  · simp only [emitted, ← needed]
    calc
      Stage.InclusionsOnly
            (Projection.stages settings request.search following ++ (front ++ back)) ↔
          Stage.InclusionsOnly (Projection.stages settings request.search following) := by
        rw [Stage.inclusionsOnly_append_iff, and_iff_left others]
      _ ↔ _ := Projection.inclusionsOnly_stages_iff

/-- All projections of the sample are accepted; one of them stands in a join within a join. -/
theorem compile_emits_inclusions_sampleNested :
    ∃ pipeline,
      (sampleNested.compile {}).outcome = .ok pipeline ∧
        sampleNested.Emits pipeline (Stage.project ["email"]) ∧
        ∀ stage, sampleNested.Emits pipeline stage → Stage.Projects stage →
          Stage.IsInclusion stage := by
  have accepted := (compile_emits_inclusions_iff {} sampleNested _ rfl).2.mpr
  refine ⟨_, rfl, (emits_iff_within rfl _ _).mpr ?_, accepted ?_⟩
  · apply Stage.Within.inside (.tail _ (.tail _ List.mem_cons_self)) rfl
    exact .inside List.mem_cons_self rfl (.here List.mem_cons_self)
  · intro select _
    exact ⟨"createdBy", .alwaysProjected List.mem_cons_self, by decide⟩

/-- A request whose selection is there but names no field. -/
def selectingNothing : Request where
  search := { select := some [] }

/-- If no field is kept always, an empty selection puts a projection of no field into the pipeline. -/
theorem compile_emits_empty_projection :
    ∃ pipeline stage,
      (selectingNothing.compile { alwaysProjected := [] }).outcome = .ok pipeline ∧
        selectingNothing.Emits pipeline stage ∧ Stage.Projects stage ∧
        ¬ Stage.IsInclusion stage := by
  refine
    ⟨_, Stage.project [], rfl, (emits_iff_within rfl _ _).mpr (.here List.mem_cons_self),
      List.mem_cons_self, ?_⟩
  intro accepted
  exact (Stage.isInclusion_project_iff FieldPath.independent_nil).mp accepted rfl

end Request

end SearchPipeline
