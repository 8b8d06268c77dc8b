import SearchPipeline.Request
import SearchPipeline.Proofs.Fragments
import SearchPipeline.Proofs.KeptFields
import SearchPipeline.Proofs.Stage

/-!
# Joins within joins

A join is found by its place: its number among the joins of a list, then its number
among the joins within that one, and so on.  The pipeline has the description of every
join at the join's own place.  If it ends in a projection, that projection covers
whatever the search reads below the join, however deep.
-/

namespace SearchPipeline

/-! ## Places -/

namespace JoinTree

/--
A join of a tree, with its place and the start of the paths into what it joins: the
names of the joins from the outermost down to it, each followed by a dot.
-/
inductive At : (around : String) → List JoinTree → List Nat → String → JoinTree → Prop where
  | here
      {around : String}
      {trees : List JoinTree}
      {index : Nat}
      {tree : JoinTree}
      (found : trees[index]? = some tree) :
      At around trees [index] (around ++ tree.join.start) tree
  | within
      {around : String}
      {trees : List JoinTree}
      {index : Nat}
      {join : Join}
      {nested : List JoinTree}
      {place : List Nat}
      {start : String}
      {tree : JoinTree}
      (found : trees[index]? = some (node join nested))
      (below : At (around ++ join.start) nested place start tree) :
      At around trees (index :: place) start tree

end JoinTree

namespace Bson

def entries? : Bson → Option Document
  | .document entries => some entries
  | _ => none

end Bson

namespace Stage

/-- The stages within a join, as its description lists them. -/
def inner (lookup : Document) : List Document :=
  match Document.get? lookup "pipeline" with
  | some (.array items) => items.filterMap Bson.entries?
  | _ => []

/-- The description of the join at a place. -/
def lookupAt? (stages : List Document) : List Nat → Option Document
  | [] => none
  | [index] => (stages.filterMap lookup?)[index]?
  | index :: next :: rest =>
    (stages.filterMap lookup?)[index]?.bind fun lookup => lookupAt? (inner lookup) (next :: rest)

/-- The fields that the last stage includes, if it is a projection. -/
def finalProjection? (stages : List Document) : Option Document :=
  stages.getLast?.bind (Document.getDocument? · "$project")

/--
The join at a place is the given one, and if it ends in a projection, this projection
covers a path.
-/
def KeepsAt
    (stages : List Document)
    (place : List Nat)
    (join : Join)
    (path : String) :
    Prop :=
  ∃ inner,
    lookupAt? stages place = some (join.lookup inner) ∧
      ∀ projection, finalProjection? inner = some projection →
        ∃ field ∈ Document.keys projection, FieldPath.Covers field path

/-- The join at a place is the given one, and it does not end in a projection. -/
def PassesAt
    (stages : List Document)
    (place : List Nat)
    (join : Join) :
    Prop :=
  ∃ inner,
    lookupAt? stages place = some (join.lookup inner) ∧ finalProjection? inner = none

end Stage

namespace Join

/-- What is put into a description as the stages within it is read back. -/
theorem inner_lookup
    (join : Join)
    (stages : List Document) :
    Stage.inner (join.lookup stages) = stages := by
  have read : (stages.map Bson.document).filterMap Bson.entries? = stages := by
    rw [List.filterMap_map]
    exact List.filterMap_some
  cases stages with
  | nil => rfl
  | cons stage rest =>
      simpa [Stage.inner, lookup, Document.get?] using read

/-- The description of a join has one list of stages within it. -/
theorem lookup_injective (join : Join) : Function.Injective join.lookup := by
  intro left right same
  rw [← inner_lookup join left, same, inner_lookup]

@[simp]
theorem getString?_lookup_as
    (join : Join)
    (stages : List Document) :
    Document.getString? (join.lookup stages) "as" = some join.target :=
  rfl

@[simp]
theorem lookup?_flatten (join : Join) : Stage.lookup? join.flatten = none :=
  rfl

/-- The stages of a join hold one join, which is described by its names and the stages in it. -/
theorem filterMap_lookup?_stages
    (join : Join)
    (nested : List Document)
    (kept : List String) :
    (join.stages nested kept).filterMap Stage.lookup? = [join.lookup (innerStages nested kept)] := by
  have described :
      Stage.lookup? [("$lookup", .document (join.lookup (innerStages nested kept)))] =
        some (join.lookup (innerStages nested kept)) :=
    rfl
  rw [stages, List.filterMap_cons_some described]
  cases join.isArray <;> simp

end Join

theorem Stage.exists_inner_iff
    {stages : List Document}
    {place : List Nat}
    {join : Join}
    (within : List Document)
    (described : lookupAt? stages place = some (join.lookup within))
    (holds : List Document → Prop) :
    (∃ inner, lookupAt? stages place = some (join.lookup inner) ∧ holds inner) ↔
      holds within := by
  rw [described]
  constructor
  · rintro ⟨inner, same, held⟩
    exact join.lookup_injective (Option.some.inj same) ▸ held
  · intro held
    exact ⟨within, rfl, held⟩

namespace JoinTree

/-- The stages within a join: those of the joins in it, then the projection if there is one. -/
def inner
    (search : Search)
    (around : String) :
    JoinTree → List Document
  | node join nested =>
    Join.innerStages (listStages search (around ++ join.start) nested)
      (Join.keptFields (listStages search (around ++ join.start) nested) search
        (around ++ join.start))

theorem filterMap_lookup?_tree
    (search : Search)
    (around : String)
    (tree : JoinTree) :
    (stages search around tree).filterMap Stage.lookup? =
      [tree.join.lookup (tree.inner search around)] := by
  cases tree with
  | node join nested =>
      rw [stages, Join.stagesFor, Join.filterMap_lookup?_stages]
      rfl

/-- The joins among the stages of a list of trees are described one by one, in order. -/
theorem filterMap_lookup?_listStages
    (search : Search)
    (around : String)
    (trees : List JoinTree) :
    (listStages search around trees).filterMap Stage.lookup? =
      trees.map fun tree => tree.join.lookup (tree.inner search around) := by
  induction trees with
  | nil => rfl
  | cons tree trees induction =>
      rw [listStages, List.filterMap_append, filterMap_lookup?_tree, induction, List.map_cons,
        List.singleton_append]

theorem joinTargets_listStages
    (search : Search)
    (around : String)
    (trees : List JoinTree) :
    Stage.joinTargets (listStages search around trees) = trees.map (·.join.target) := by
  rw [Stage.joinTargets, filterMap_lookup?_listStages, List.filterMap_map]
  simp only [Function.comp_def, Join.getString?_lookup_as]
  exact congrFun List.filterMap_eq_map' trees

theorem getDocument?_project_of_mem_listStages
    {search : Search}
    {around : String}
    {trees : List JoinTree}
    {stage : Document}
    (member : stage ∈ listStages search around trees) :
    Document.getDocument? stage "$project" = none := by
  induction trees with
  | nil => cases member
  | cons tree trees induction =>
      cases tree with
      | node join nested =>
          rw [listStages, stages, Join.stagesFor, Join.stages, List.mem_append,
            List.mem_cons] at member
          rcases member with (rfl | flattened) | later
          · rfl
          · split at flattened
            · cases flattened
            · rw [List.mem_singleton.mp flattened]
              rfl
          · exact induction later

/-- The stages of joins do not end in a projection. -/
theorem finalProjection?_listStages
    (search : Search)
    (around : String)
    (trees : List JoinTree) :
    Stage.finalProjection? (listStages search around trees) = none := by
  rw [Stage.finalProjection?]
  cases last : (listStages search around trees).getLast? with
  | none => rfl
  | some stage =>
      exact getDocument?_project_of_mem_listStages (List.mem_of_getLast? last)

end JoinTree

namespace Join

/-- A join ends in a projection exactly if it names fields to keep, and includes just these. -/
theorem finalProjection?_innerStages
    {before : List Document}
    {kept : List String}
    (distinct : kept.Nodup)
    (unprojected : Stage.finalProjection? before = none) :
    Stage.finalProjection? (innerStages before kept) =
      if kept = [] then none else some (Document.inclusion kept) := by
  cases kept with
  | nil =>
      rw [innerStages, List.isEmpty_nil, if_pos rfl, List.append_nil, unprojected, if_pos rfl]
  | cons field rest =>
      rw [innerStages, List.isEmpty_cons, if_neg Bool.false_ne_true, Stage.finalProjection?,
        List.getLast?_concat, Option.bind_some, Stage.project_of_nodup distinct,
        if_neg (List.cons_ne_nil _ _)]
      rfl

section Narrowed

variable {before nested : List Document} {search : Search} {start : String}

/-- A join does not end in a projection exactly if the search does not narrow it. -/
theorem finalProjection?_eq_none_iff
    (unprojected : Stage.finalProjection? before = none) :
    Stage.finalProjection? (innerStages before (keptFields nested search start)) = none ↔
      ¬ Narrows (Stage.joinTargets nested) search start := by
  rw [finalProjection?_innerStages (nodup_keptFields _ _ _) unprojected, ← keptFields_eq_nil_iff]
  simp

/-- A projection at the end of a join covers a path exactly if a wanted field does. -/
theorem finalProjection?_covers_iff
    (unprojected : Stage.finalProjection? before = none)
    (path : String) :
    (∀ projection,
        Stage.finalProjection? (innerStages before (keptFields nested search start)) =
            some projection →
          ∃ field ∈ Document.keys projection, FieldPath.Covers field path) ↔
      (Narrows (Stage.joinTargets nested) search start →
        ∃ field, Wants (Stage.joinTargets nested) search start field ∧
          FieldPath.Covers field path) := by
  by_cases narrows : Narrows (Stage.joinTargets nested) search start
  · have kept : keptFields nested search start ≠ [] := by
      rw [Ne, keptFields_eq_nil_iff, not_not]
      exact narrows
    rw [finalProjection?_innerStages (nodup_keptFields _ _ _) unprojected, if_neg kept,
      ← exists_mem_keptFields_covers_iff narrows]
    simp [narrows]
  · rw [(finalProjection?_eq_none_iff unprojected).mpr narrows]
    simp [narrows]

end Narrowed

end Join

namespace JoinTree

/-- The names of the joins at all places are not empty. -/
def Named (around : String) (trees : List JoinTree) : Prop :=
  ∀ place start tree, At around trees place start tree → tree.join.target ≠ ""

theorem Named.within
    {around : String}
    {trees nested : List JoinTree}
    {index : Nat}
    {join : Join}
    (named : Named around trees)
    (found : trees[index]? = some (node join nested)) :
    Named (around ++ join.start) nested := by
  intro place start tree below
  exact named (index :: place) start tree (At.within found below)

theorem Named.target_ne_empty
    {around : String}
    {trees : List JoinTree}
    (named : Named around trees) :
    ∀ tree ∈ trees, tree.join.target ≠ "" := by
  intro tree member
  rcases List.mem_iff_getElem?.mp member with ⟨index, found⟩
  exact named [index] _ tree (At.here found)

theorem filterMap_lookup?_inner
    (search : Search)
    (around : String)
    (join : Join)
    (nested : List JoinTree) :
    (inner search around (node join nested)).filterMap Stage.lookup? =
      (listStages search (around ++ join.start) nested).filterMap Stage.lookup? := by
  rw [inner, Join.innerStages, List.filterMap_append]
  split <;> simp

/-- The names of the joins directly within a join. -/
def targets : JoinTree → List String
  | node _ nested => nested.map (·.join.target)

theorem finalProjection?_inner_eq_none_iff
    (search : Search)
    (around : String)
    (tree : JoinTree) :
    Stage.finalProjection? (tree.inner search around) = none ↔
      ¬ Join.Narrows tree.targets search (around ++ tree.join.start) := by
  cases tree with
  | node join nested =>
      rw [targets, ← joinTargets_listStages search (around ++ join.start)]
      exact Join.finalProjection?_eq_none_iff (finalProjection?_listStages _ _ _)

theorem finalProjection?_inner_covers_iff
    (search : Search)
    (around : String)
    (tree : JoinTree)
    (path : String) :
    (∀ projection, Stage.finalProjection? (tree.inner search around) = some projection →
        ∃ field ∈ Document.keys projection, FieldPath.Covers field path) ↔
      (Join.Narrows tree.targets search (around ++ tree.join.start) →
        ∃ field, Join.Wants tree.targets search (around ++ tree.join.start) field ∧
          FieldPath.Covers field path) := by
  cases tree with
  | node join nested =>
      rw [targets, ← joinTargets_listStages search (around ++ join.start)]
      exact Join.finalProjection?_covers_iff (finalProjection?_listStages _ _ _) path

theorem Named.target_ne_empty_of_at
    {around start : String}
    {trees : List JoinTree}
    {place : List Nat}
    {tree : JoinTree}
    (named : Named around trees)
    (at_place : At around trees place start tree) :
    ∀ target ∈ tree.targets, target ≠ "" := by
  induction at_place with
  | @here around trees index tree found =>
      cases tree with
      | node join nested =>
          intro target member
          obtain ⟨tree, treeMember, rfl⟩ := List.mem_map.mp member
          exact (named.within found).target_ne_empty tree treeMember
  | within found below induction =>
      exact induction (named.within found)

/-- What a list of stages holds at the place of a join, whatever joins follow in the list. -/
theorem getElem?_lookup
    {search : Search}
    {around : String}
    {trees : List JoinTree}
    {index : Nat}
    {tree : JoinTree}
    {stages others : List Document}
    (found : trees[index]? = some tree)
    (compiled :
      stages.filterMap Stage.lookup? =
        (listStages search around trees).filterMap Stage.lookup? ++ others) :
    (stages.filterMap Stage.lookup?)[index]? =
      some (tree.join.lookup (tree.inner search around)) := by
  have described :
      (trees.map fun tree => tree.join.lookup (tree.inner search around))[index]? =
        some (tree.join.lookup (tree.inner search around)) := by
    rw [List.getElem?_map, found, Option.map_some]
  have inside := (List.getElem?_eq_some_iff.mp described).1
  rw [compiled, filterMap_lookup?_listStages, List.getElem?_append_left inside, described]

theorem At.place_ne_nil
    {around start : String}
    {trees : List JoinTree}
    {place : List Nat}
    {tree : JoinTree}
    (at_place : At around trees place start tree) :
    place ≠ [] := by
  cases at_place <;> exact List.cons_ne_nil _ _

/--
At the place of a join stands its description.  The induction is on the place: the stages
within a join are again the stages of a list of trees.
-/
theorem At.lookupAt?_eq
    {search : Search}
    {around start : String}
    {trees : List JoinTree}
    {place : List Nat}
    {tree : JoinTree}
    (at_place : At around trees place start tree)
    {stages others : List Document}
    (compiled :
      stages.filterMap Stage.lookup? =
        (listStages search around trees).filterMap Stage.lookup? ++ others) :
    ∃ outer, start = outer ++ tree.join.start ∧
      Stage.lookupAt? stages place = some (tree.join.lookup (tree.inner search outer)) := by
  induction at_place generalizing stages others with
  | @here around trees index tree found =>
      exact ⟨around, rfl, getElem?_lookup found compiled⟩
  | @within around trees index join nested place start tree found below induction =>
      obtain ⟨next, rest, rfl⟩ := List.exists_cons_of_ne_nil below.place_ne_nil
      have outer := getElem?_lookup found compiled
      -- Within a join nothing follows the nested joins that is read as a join.
      have inside :
          (inner search around (node join nested)).filterMap Stage.lookup? =
            (listStages search (around ++ join.start) nested).filterMap Stage.lookup? ++ [] := by
        rw [List.append_nil, filterMap_lookup?_inner]
      obtain ⟨innermost, divided, described⟩ := induction inside
      refine ⟨innermost, divided, ?_⟩
      rw [Stage.lookupAt?, outer, Option.bind_some, Join.inner_lookup, described]

section AtPlace

variable {search : Search} {around start : String} {trees : List JoinTree} {place : List Nat}
  {tree : JoinTree} {stages others : List Document}

/-- A join at a place ends in no projection exactly if the search does not narrow it. -/
theorem At.passesAt_iff
    (at_place : At around trees place start tree)
    (compiled :
      stages.filterMap Stage.lookup? =
        (listStages search around trees).filterMap Stage.lookup? ++ others) :
    Stage.PassesAt stages place tree.join ↔ ¬ Join.Narrows tree.targets search start := by
  obtain ⟨outer, rfl, described⟩ := at_place.lookupAt?_eq compiled
  rw [Stage.PassesAt, Stage.exists_inner_iff _ described, finalProjection?_inner_eq_none_iff]

/--
A join at a place keeps a path exactly if the search does not narrow the join or wants a
field that covers the path.
-/
theorem At.keepsAt_iff
    (at_place : At around trees place start tree)
    (compiled :
      stages.filterMap Stage.lookup? =
        (listStages search around trees).filterMap Stage.lookup? ++ others)
    (path : String) :
    Stage.KeepsAt stages place tree.join path ↔
      (Join.Narrows tree.targets search start →
        ∃ field, Join.Wants tree.targets search start field ∧ FieldPath.Covers field path) := by
  obtain ⟨outer, rfl, described⟩ := at_place.lookupAt?_eq compiled
  rw [Stage.KeepsAt, Stage.exists_inner_iff _ described, finalProjection?_inner_covers_iff]

/-- A join at a place keeps whatever the search reads below it. -/
theorem At.keepsAt
    {path suffix : String}
    (at_place : At around trees place start tree)
    (named : Named around trees)
    (reads : search.Reads path)
    (divided : path = start ++ suffix)
    (nonempty : suffix ≠ "")
    (compiled :
      stages.filterMap Stage.lookup? =
        (listStages search around trees).filterMap Stage.lookup? ++ others) :
    Stage.KeepsAt stages place tree.join suffix := by
  rw [at_place.keepsAt_iff compiled]
  intro _
  exact Join.exists_wants_of_reads (named.target_ne_empty_of_at at_place) reads divided nonempty

end AtPlace

theorem At.exists_start_eq
    {around start : String}
    {trees : List JoinTree}
    {place : List Nat}
    {tree : JoinTree}
    (at_place : At around trees place start tree) :
    ∃ more, start = around ++ more := by
  induction at_place with
  | here found => exact ⟨_, rfl⟩
  | within found below induction =>
      rcases induction with ⟨more, rfl⟩
      exact ⟨_, String.append_assoc⟩

/-- Around a join at a place there is a join at every earlier part of the place. -/
theorem At.exists_enclosing
    {around start : String}
    {trees : List JoinTree}
    {place outer : List Nat}
    {tree : JoinTree}
    (at_place : At around trees place start tree)
    (earlier : outer <+: place)
    (nonempty : outer ≠ []) :
    ∃ outerStart outerTree more,
      At around trees outer outerStart outerTree ∧ start = outerStart ++ more := by
  induction at_place generalizing outer with
  | @here around trees index tree found =>
      rcases List.prefix_cons_iff.mp earlier with rfl | ⟨rest, rfl, restEarlier⟩
      · exact (nonempty rfl).elim
      · rw [List.prefix_nil] at restEarlier
        subst restEarlier
        exact ⟨_, tree, "", At.here found, String.append_empty.symm⟩
  | @within around trees index join nested place start tree found below induction =>
      rcases List.prefix_cons_iff.mp earlier with rfl | ⟨rest, rfl, restEarlier⟩
      · exact (nonempty rfl).elim
      · by_cases empty : rest = []
        · obtain ⟨more, starts⟩ := below.exists_start_eq
          subst empty
          exact ⟨_, node join nested, more, At.here found, starts⟩
        · obtain ⟨outerStart, outerTree, more, enclosing, starts⟩ := induction restEarlier empty
          exact ⟨outerStart, outerTree, more, At.within found enclosing, starts⟩

end JoinTree

namespace Request

/-- The joins of a compiled request come first among the joins of its pipeline. -/
theorem filterMap_lookup?_pipeline
    {settings : Settings}
    {request : Request}
    {pipeline : List Document}
    (compiled : (request.compile settings).outcome = .ok pipeline) :
    pipeline.filterMap Stage.lookup? =
      (JoinTree.listStages request.search "" request.joins).filterMap Stage.lookup? ++
        request.stages.filterMap Stage.lookup? := by
  obtain ⟨-, following, listed, joined⟩ := Search.compile_eq_ok compiled
  have unread :
      (Projection.stages settings request.search following).filterMap Stage.lookup? = [] := by
    rw [Projection.stages]
    split <;> rfl
  rw [joined, List.filterMap_append, unread, List.nil_append, listed,
    Search.filterMap_lookup?_around, joinSection, List.filterMap_append]

/--
A compiled request has each of its joins at the join's place, and a projection at the
join's end covers what the search reads below the join.  So do the projections of all
joins around it, for the part of the path that lies below them.
-/
theorem compile_keeps_read_fields
    (settings : Settings)
    (request : Request)
    (pipeline : List Document)
    (named : JoinTree.Named "" request.joins)
    (compiled : (request.compile settings).outcome = .ok pipeline)
    (place : List Nat)
    (start : String)
    (tree : JoinTree)
    (at_place : JoinTree.At "" request.joins place start tree)
    (path suffix : String)
    (reads : request.search.Reads path)
    (divided : path = start ++ suffix)
    (nonempty : suffix ≠ "") :
    Stage.KeepsAt pipeline place tree.join suffix ∧
      ∀ outer, outer <+: place → outer ≠ [] →
        ∃ outerStart outerTree outerSuffix,
          JoinTree.At "" request.joins outer outerStart outerTree ∧
            path = outerStart ++ outerSuffix ∧
            Stage.KeepsAt pipeline outer outerTree.join outerSuffix := by
  have joins := filterMap_lookup?_pipeline compiled
  refine ⟨at_place.keepsAt named reads divided nonempty joins, ?_⟩
  intro outer earlier outerNonempty
  obtain ⟨outerStart, outerTree, more, enclosing, starts⟩ :=
    at_place.exists_enclosing earlier outerNonempty
  have outerDivided : path = outerStart ++ (more ++ suffix) := by
    rw [divided, starts, String.append_assoc]
  have outerSuffixNonempty : more ++ suffix ≠ "" := by
    simp [nonempty]
  exact
    ⟨outerStart, outerTree, more ++ suffix, enclosing, outerDivided,
      enclosing.keepsAt named reads outerDivided outerSuffixNonempty joins⟩

/-- A request with a join within a join. -/
def sampleNested : Request where
  search :=
    { select := some
        [{ field := "name" }, { field := "dept.title", isExternal := true },
          { field := "dept.manager.email", isExternal := true }] }
  joins :=
    [.node
      { collection := "departments", localField := "deptId", foreignField := "_id", target := "dept" }
      [.node
        { collection := "people", localField := "managerId", foreignField := "_id",
          target := "manager" }
        []]]

theorem named_sampleNested : JoinTree.Named "" sampleNested.joins := by
  intro place start tree at_place
  cases at_place with
  | here found =>
      rw [List.mem_singleton.mp (List.mem_of_getElem? found)]
      decide
  | within found below =>
      cases List.mem_singleton.mp (List.mem_of_getElem? found)
      cases below with
      | here found =>
          rw [List.mem_singleton.mp (List.mem_of_getElem? found)]
          decide
      | within found below =>
          cases List.mem_singleton.mp (List.mem_of_getElem? found)
          cases below with
          | here found => cases found
          | within found _ => cases found

/-- The path into the inner join is kept there, and what leads to it is kept in the outer one. -/
theorem compile_keeps_read_fields_sampleNested :
    ∃ pipeline, (sampleNested.compile {}).outcome = .ok pipeline ∧
      Stage.KeepsAt pipeline [0, 0]
        { collection := "people", localField := "managerId", foreignField := "_id",
          target := "manager" }
        "email" ∧
      Stage.KeepsAt pipeline [0]
        { collection := "departments", localField := "deptId", foreignField := "_id",
          target := "dept" }
        "manager.email" := by
  have email : SelectedField.mk "dept.manager.email" true ∈ sampleNested.search.select.getD [] :=
    .tail _ (.tail _ (.head _))
  refine ⟨_, rfl, ?_, ?_⟩
  · exact
      (compile_keeps_read_fields {} sampleNested _ named_sampleNested rfl [0, 0] _ _
        (.within rfl (.here rfl)) "dept.manager.email" "email" (.selected rfl email)
        (by decide) (by decide)).1
  · exact
      (compile_keeps_read_fields {} sampleNested _ named_sampleNested rfl [0] _ _
        (.here rfl) "dept.manager.email" "manager.email" (.selected rfl email)
        (by decide) (by decide)).1

end Request

end SearchPipeline
