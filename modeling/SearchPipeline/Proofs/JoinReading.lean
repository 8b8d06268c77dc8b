import SearchPipeline.Proofs.JoinTree
import SearchPipeline.Proofs.Layout
import SearchPipeline.Proofs.Routing

/-!
# Joins read back from their stages

The joins of a request are flattened into stages: a join takes one stage or two, the
joins within it stand in its inner stages, with a projection behind them if it is narrowed.
`JoinTree.ofStages` reads the joins back from such stages, whatever the search has put
between them.  So two requests have the same stages between their matches only if their
joins are the same, in the same order, with the same joins within them.
-/

namespace SearchPipeline

/-! ## Reading joins -/

theorem Document.sizeOf_get?_lt
    {document : Document}
    {key : String}
    {value : Bson}
    (found : get? document key = some value) :
    sizeOf value < sizeOf document := by
  induction document with
  | nil => cases found
  | cons entry rest induction =>
      rcases entry with ⟨other, old⟩
      rw [get?] at found
      split at found
      · cases found
        simp only [List.cons.sizeOf_spec, Prod.mk.sizeOf_spec]
        omega
      · have smaller := induction found
        simp only [List.cons.sizeOf_spec]
        omega

theorem Bson.sizeOf_filterMap_entries?_le (items : List Bson) :
    sizeOf (items.filterMap entries?) ≤ sizeOf items := by
  induction items with
  | nil => simp
  | cons item rest induction =>
      cases found : entries? item with
      | none =>
          rw [List.filterMap_cons_none found]
          simp only [List.cons.sizeOf_spec]
          omega
      | some entries =>
          have document : item = .document entries := by
            cases item <;> simp_all [entries?]
          rw [List.filterMap_cons_some found, document]
          simp only [List.cons.sizeOf_spec, Bson.document.sizeOf_spec]
          omega

namespace Stage

theorem sizeOf_inner_le (lookup : Document) : sizeOf (inner lookup) ≤ sizeOf lookup := by
  rw [inner]
  split
  · rename_i items listed
    have smaller := Document.sizeOf_get?_lt listed
    have entries := Bson.sizeOf_filterMap_entries?_le items
    simp only [Bson.array.sizeOf_spec] at smaller
    omega
  · cases lookup with
    | nil => simp
    | cons entry rest =>
        simp only [List.nil.sizeOf_spec, List.cons.sizeOf_spec]
        omega

theorem sizeOf_lookup?_lt
    {stage lookup : Document}
    (joined : lookup? stage = some lookup) :
    sizeOf lookup < sizeOf stage := by
  rw [lookup?, Document.getDocument?] at joined
  split at joined
  · rename_i entries found
    cases joined
    have smaller := Document.sizeOf_get?_lt found
    simp only [Bson.document.sizeOf_spec] at smaller
    omega
  · cases joined

/-- Whether the first of some stages sets a field, as the stage does that flattens a join. -/
def startsWithSet : List Document → Bool
  | [] => false
  | stage :: _ => (Document.get? stage "$set").isSome

end Stage

/-- The join that a description names; whether it stays a list is said elsewhere. -/
def Join.ofLookup (lookup : Document) (isArray : Bool) : Join where
  collection := (Document.getString? lookup "from").getD ""
  localField := (Document.getString? lookup "localField").getD ""
  foreignField := (Document.getString? lookup "foreignField").getD ""
  target := (Document.getString? lookup "as").getD ""
  isArray := isArray

namespace JoinTree

/--
The joins that some stages describe, with the joins that the stages within them describe.
A join stays a list unless the stage behind it sets a field; other stages are passed over.
-/
def ofStages : List Document → List JoinTree
  | [] => []
  | stage :: rest =>
    match _joined : Stage.lookup? stage with
    | some lookup =>
      node (Join.ofLookup lookup (!Stage.startsWithSet rest)) (ofStages (Stage.inner lookup)) ::
        ofStages rest
    | none => ofStages rest
termination_by stages => sizeOf stages
decreasing_by
  · have smaller := Stage.sizeOf_lookup?_lt _joined
    have within := Stage.sizeOf_inner_le lookup
    simp only [List.cons.sizeOf_spec]
    omega
  · simp only [List.cons.sizeOf_spec]
    omega
  · simp only [List.cons.sizeOf_spec]
    omega

@[simp]
theorem ofStages_nil : ofStages [] = [] := by
  rw [ofStages]

theorem ofStages_cons_of_lookup
    {stage lookup : Document}
    (joined : Stage.lookup? stage = some lookup)
    (rest : List Document) :
    ofStages (stage :: rest) =
      node (Join.ofLookup lookup (!Stage.startsWithSet rest)) (ofStages (Stage.inner lookup)) ::
        ofStages rest := by
  rw [ofStages]
  split
  · rename_i other found
    rw [joined] at found
    cases found
    rfl
  · rename_i found
    rw [joined] at found
    cases found

theorem ofStages_cons_of_no_lookup
    {stage : Document}
    (unjoined : Stage.lookup? stage = none)
    (rest : List Document) :
    ofStages (stage :: rest) = ofStages rest := by
  rw [ofStages]
  split
  · rename_i found
    rw [unjoined] at found
    cases found
  · rfl

end JoinTree

/-! ## What is written is read -/

namespace Join

@[simp]
theorem ofLookup_lookup
    (join : Join)
    (inner : List Document) :
    ofLookup (join.lookup inner) join.isArray = join :=
  rfl

/-- Whatever a join keeps, the stages of a join are read as the join and what is read within it. -/
theorem ofStages_stages_append
    (join : Join)
    (nested : List Document)
    (kept : List String)
    {rest : List Document}
    (separate : Stage.startsWithSet rest = false) :
    JoinTree.ofStages (join.stages nested kept ++ rest) =
      .node join (JoinTree.ofStages (innerStages nested kept)) :: JoinTree.ofStages rest := by
  have described :
      Stage.lookup? [("$lookup", .document (join.lookup (innerStages nested kept)))] =
        some (join.lookup (innerStages nested kept)) :=
    rfl
  rw [stages, List.cons_append, JoinTree.ofStages_cons_of_lookup described, inner_lookup]
  cases array : join.isArray with
  | true =>
      have named := join.ofLookup_lookup (innerStages nested kept)
      rw [array] at named
      simp [separate, named]
  | false =>
      have named := join.ofLookup_lookup (innerStages nested kept)
      rw [array] at named
      have set : Stage.startsWithSet (join.flatten :: rest) = true := rfl
      simp [set, named, JoinTree.ofStages_cons_of_no_lookup (lookup?_flatten join)]

end Join

namespace JoinTree

theorem startsWithSet_listStages_append
    (search : Search)
    (around : String)
    (trees : List JoinTree)
    {rest : List Document}
    (separate : Stage.startsWithSet rest = false) :
    Stage.startsWithSet (listStages search around trees ++ rest) = false := by
  cases trees with
  | nil => exact separate
  | cons tree trees =>
      cases tree with
      | node join nested => rfl

mutual

theorem ofStages_stages_append
    (search : Search)
    (around : String)
    (tree : JoinTree)
    {rest : List Document}
    (separate : Stage.startsWithSet rest = false) :
    ofStages (stages search around tree ++ rest) = tree :: ofStages rest := by
  cases tree with
  | node join nested =>
      rw [stages, Join.stagesFor, Join.ofStages_stages_append join _ _ separate, Join.innerStages]
      -- Behind the nested joins stands at most the projection, which is not read.
      split
      · rw [ofStages_listStages_append search _ nested rfl, ofStages_nil, List.append_nil]
      · rw [ofStages_listStages_append search _ nested rfl, ofStages_cons_of_no_lookup rfl,
          ofStages_nil, List.append_nil]
termination_by structural tree

/--
The stages of a list of joins are read as these joins, whatever the search and whatever
follows that does not start as if it belonged to the last of them.  The induction is on the
trees: the stages within a join are again those of a list, before the join's projection.
-/
theorem ofStages_listStages_append
    (search : Search)
    (around : String)
    (trees : List JoinTree)
    {rest : List Document}
    (separate : Stage.startsWithSet rest = false) :
    ofStages (listStages search around trees ++ rest) = trees ++ ofStages rest := by
  cases trees with
  | nil => rfl
  | cons tree trees =>
      have next := startsWithSet_listStages_append search around trees separate
      rw [listStages, List.append_assoc, ofStages_stages_append search around tree next,
        ofStages_listStages_append search around trees separate, List.cons_append]
termination_by structural trees

end

/-- The joins of a list can be read back from its stages. -/
theorem ofStages_listStages
    (search : Search)
    (around : String)
    (trees : List JoinTree) :
    ofStages (listStages search around trees) = trees := by
  have separate : Stage.startsWithSet [] = false := rfl
  simpa using ofStages_listStages_append search around trees separate

end JoinTree

/-! ## The stages between the matches -/

namespace Stage

/-- Whether a stage is a match. -/
def isMatch (stage : Document) : Bool :=
  (Document.getDocument? stage "$match").isSome

/-- The stages between the first match of a pipeline and the last one. -/
def betweenMatches (pipeline : List Document) : List Document :=
  let afterFirst := (pipeline.dropWhile (!isMatch ·)).tail
  (afterFirst.reverse.dropWhile (!isMatch ·)).tail.reverse

theorem dropWhile_not_isMatch
    {unmatched : List Document}
    (none : ∀ stage ∈ unmatched, isMatch stage = false)
    (condition : Document)
    (following : List Document) :
    (unmatched ++ matching condition :: following).dropWhile (!isMatch ·) =
      matching condition :: following := by
  have skipped : ∀ stage ∈ unmatched, (!isMatch stage) = true := by
    simpa using none
  rw [List.dropWhile_append_of_pos skipped, List.dropWhile_cons_of_neg]
  simp [isMatch, matching, Document.getDocument?, Document.get?]

/-- Whatever stands between two matches is found there, if no match stands in front or behind. -/
theorem betweenMatches_eq
    {front back : List Document}
    (first : ∀ stage ∈ front, isMatch stage = false)
    (last : ∀ stage ∈ back, isMatch stage = false)
    (before after : Document)
    (middle : List Document) :
    betweenMatches (front ++ matching before :: (middle ++ matching after :: back)) = middle := by
  have lastReversed : ∀ stage ∈ back.reverse, isMatch stage = false := by
    simpa using last
  have reversed :
      (middle ++ matching after :: back).reverse =
        back.reverse ++ matching after :: middle.reverse := by
    simp
  rw [betweenMatches, dropWhile_not_isMatch first, List.tail_cons, reversed,
    dropWhile_not_isMatch lastReversed, List.tail_cons, List.reverse_reverse]

end Stage

namespace Request

/-- Between the matches of a pipeline stand the stages of the joins, then the further stages. -/
theorem betweenMatches_pipeline
    {settings : Settings}
    {request : Request}
    {pipeline : List Document}
    (compiled : (request.compile settings).outcome = .ok pipeline) :
    Stage.betweenMatches pipeline =
      JoinTree.listStages request.search "" request.joins ++ request.stages := by
  obtain ⟨-, following, listed, joined⟩ := Search.compile_eq_ok compiled
  have projections :
      ∀ stage ∈ Projection.stages settings request.search following,
        Stage.isMatch stage = false := by
    intro stage member
    rw [Stage.isMatch, Projection.getDocument?_match_of_mem_stages _ _ _ stage member]
    rfl
  have sorts :
      ∀ stage ∈ request.search.sortStages request.skipsSort, Stage.isMatch stage = false := by
    intro stage member
    obtain ⟨key, direction, rfl⟩ := Search.eq_sort_of_mem_sortStages member
    rfl
  have divided :=
    joined.trans (congrArg (Projection.stages settings request.search following ++ ·) listed)
  rw [divided]
  exact Stage.betweenMatches_eq projections sorts _ _ request.joinSection

theorem exists_compile_plain
    {settings : Settings}
    {request : Request}
    {pipeline : List Document}
    (compiled : (request.compile settings).outcome = .ok pipeline) :
    ∃ plain, ({ request with stages := [] }.compile settings).outcome = .ok plain := by
  rw [compile, Search.compile, Compiled.outcome_andThen_result_eq_ok_iff] at compiled
  rcases compiled with ⟨conditions, conditionsCompiled, -⟩
  refine ⟨_, (Compiled.outcome_andThen_result_eq_ok_iff _ _ _).mpr ⟨conditions, ?_, rfl⟩⟩
  exact conditionsCompiled

/--
The joins of a request can be read back from the stages between the two matches of its
pipeline without the further stages, and with these they stand behind the joins as they
were given.  So another request for the same search that has no further stages has the same
stages between its matches exactly if it has the same joins.
-/
theorem compile_reads_back_joins
    (settings : Settings)
    (request : Request)
    (pipeline : List Document)
    (compiled : (request.compile settings).outcome = .ok pipeline) :
    ∃ plain,
      ({ request with stages := [] }.compile settings).outcome = .ok plain ∧
        JoinTree.ofStages (Stage.betweenMatches plain) = request.joins ∧
        Stage.betweenMatches pipeline = Stage.betweenMatches plain ++ request.stages ∧
        ∀ (otherSettings : Settings) (other : Request) (otherPipeline : List Document),
          (other.compile otherSettings).outcome = .ok otherPipeline →
            other.search = request.search → other.stages = [] →
              (Stage.betweenMatches otherPipeline = Stage.betweenMatches plain ↔
                other.joins = request.joins) := by
  obtain ⟨plain, plainCompiled⟩ := exists_compile_plain compiled
  have between :
      Stage.betweenMatches plain = JoinTree.listStages request.search "" request.joins := by
    rw [betweenMatches_pipeline plainCompiled, List.append_nil]
  refine ⟨plain, plainCompiled, ?_, ?_, ?_⟩
  · rw [between]
    exact JoinTree.ofStages_listStages request.search "" request.joins
  · rw [between]
    exact betweenMatches_pipeline compiled
  · intro otherSettings other otherPipeline otherCompiled sameSearch noStages
    rw [between, betweenMatches_pipeline otherCompiled, sameSearch, noStages, List.append_nil]
    constructor
    · intro same
      have read := congrArg JoinTree.ofStages same
      rwa [JoinTree.ofStages_listStages, JoinTree.ofStages_listStages] at read
    · intro same
      rw [same]

/-- The sample with a further stage, which is a match itself. -/
def sampleStaged : Request :=
  { sampleNested with stages := [Stage.matching [("dept.active", .boolean true)]] }

/-- The sample whose inner joins stay lists. -/
def sampleLists : Request :=
  { sampleNested with
    joins := sampleNested.joins.map fun
      | .node join nested =>
        .node join (nested.map fun | .node inner below => .node { inner with isArray := true } below) }

/-- The joins are read back, the further match follows them, and lists make a difference. -/
theorem compile_reads_back_joins_sampleStaged :
    ∃ pipeline plain lists,
      (sampleStaged.compile {}).outcome = .ok pipeline ∧
        (sampleNested.compile {}).outcome = .ok plain ∧
        (sampleLists.compile {}).outcome = .ok lists ∧
        JoinTree.ofStages (Stage.betweenMatches plain) = sampleNested.joins ∧
        Stage.betweenMatches pipeline =
          Stage.betweenMatches plain ++ [Stage.matching [("dept.active", .boolean true)]] ∧
        Stage.betweenMatches lists ≠ Stage.betweenMatches plain := by
  obtain ⟨plain, plainCompiled, read, between, told⟩ :=
    compile_reads_back_joins {} sampleStaged _ rfl
  refine ⟨_, plain, _, rfl, plainCompiled, rfl, read, between, ?_⟩
  intro same
  have joins := (told {} sampleLists _ rfl rfl rfl).mp same
  simp [sampleLists, sampleStaged, sampleNested] at joins

end Request

end SearchPipeline
