import SearchPipeline.Proofs.Layout
import SearchPipeline.Proofs.Runs
import SearchPipeline.Proofs.Stage

/-!
# The rows that a search finds

Which rows a search finds is decided by its two matches and the joins between them.  These
stages depend on nothing but the conditions of the search; the projection in front of them
and the sort behind them are added to them without looking at one another.  So a search
whose rows are only counted finds the rows that it lists, and so does one that asks for
another page or for other fields.  What holds of the pipelines holds of the replies: on an
engine that answers from the rows that a pipeline gives, the number, the list and the page
of a request tell of the same rows.
-/

namespace SearchPipeline

/-- Of the stages that follow it, a projection sees the joins only. -/
theorem Projection.stages_around
    (settings : Settings)
    (search : Search)
    (joins : List Document)
    (conditions : Conditions)
    (skipsSort : Bool) :
    stages settings search (search.stagesAfterProjection joins conditions skipsSort) =
      stages settings search joins := by
  simp only [stages, neededFields, Search.stagesAfterProjection, Search.joinLocalFields_around]

namespace Search

/-- The stages that decide which rows are found: the matches, and the joins between them. -/
def findingStages
    (search : Search)
    (joins : List Document)
    (extras : Conditions) :
    Compiled (List Document) :=
  (search.compileConditions extras).andThen fun conditions =>
    .result
      (Stage.matching (conditions.before.getD []) :: joins ++
        [Stage.matching (conditions.after.getD [])])

/-- A pipeline without the projection that it starts with, if fields are selected. -/
def afterProjection
    (search : Search)
    (pipeline : List Document) :
    List Document :=
  match search.select with
  | none => pipeline
  | some _ => pipeline.tail

theorem sortStages_skipped
    (search : Search) :
    search.sortStages true = [] := by
  rw [sortStages]
  cases search.sortKey <;> rfl

theorem afterProjection_stages_append
    (settings : Settings)
    (search : Search)
    (joins following : List Document) :
    search.afterProjection (Projection.stages settings search joins ++ following) =
      following := by
  rw [afterProjection, Projection.stages]
  cases search.select <;> rfl

/-- The stages that find the rows stand between a projection and a sort that see none of them. -/
theorem compile_eq_findingStages
    (settings : Settings)
    (search : Search)
    (joins : List Document)
    (extras : Conditions)
    (skipsSort : Bool) :
    search.compile settings joins extras skipsSort =
      (search.findingStages joins extras).andThen fun found =>
        .result (Projection.stages settings search joins ++ found ++
          search.sortStages skipsSort) := by
  rw [compile, findingStages, Compiled.andThen_assoc]
  congr 1
  funext conditions
  simp only [Compiled.result_andThen, Projection.stages_around]
  simp only [stagesAfterProjection, List.append_assoc, List.cons_append, List.nil_append]

theorem findingStages_eq_ok
    {search : Search}
    {joins found : List Document}
    {extras : Conditions}
    (compiled : (search.findingStages joins extras).outcome = .ok found) :
    ∃ before after,
      found = [("$match", .document before)] :: joins ++ [[("$match", .document after)]] := by
  rw [findingStages, Compiled.outcome_andThen_result_eq_ok_iff] at compiled
  rcases compiled with ⟨conditions, -, listed⟩
  exact ⟨_, _, listed.symm⟩

/-- Without its projection, a pipeline depends on what is asked for and how it is sorted. -/
theorem compile_afterProjection
    (settings : Settings)
    (search : Search)
    (joins : List Document)
    (extras : Conditions)
    (skipsSort : Bool) :
    ((search.compile settings joins extras skipsSort).andThen fun pipeline =>
        .result (search.afterProjection pipeline)) =
      (search.findingStages joins extras).andThen fun found =>
        .result (found ++ search.sortStages skipsSort) := by
  rw [compile_eq_findingStages, Compiled.andThen_assoc]
  congr 1
  funext found
  rw [Compiled.result_andThen, List.append_assoc, afterProjection_stages_append]

/-- A pipeline that is sorted is the one that is not, and then the sort. -/
theorem compile_eq_skipped
    (search : Search)
    (settings : Settings)
    (joins : List Document)
    (extras : Conditions) :
    search.compile settings joins extras false =
      (search.compile settings joins extras true).andThen fun pipeline =>
        .result (pipeline ++ search.sortStages false) := by
  rw [compile_eq_findingStages, compile_eq_findingStages, Compiled.andThen_assoc]
  congr 1
  funext found
  rw [Compiled.result_andThen, sortStages_skipped, List.append_nil]

/--
Leaving out the sort changes nothing but that: the search is refused for the same problem,
after the same warnings, or its pipeline is that of the sorted rows without the sort at the
end, with the same projection and the same matches around the joins.  Another page of the
rows has the same pipeline, and with other fields selected the pipelines are the same behind
their projections.
-/
theorem compile_finds_same_rows
    (settings : Settings)
    (search : Search)
    (joins : List Document)
    (extras : Conditions) :
    search.compile settings joins extras false =
        ((search.compile settings joins extras true).andThen fun pipeline =>
          .result (pipeline ++ search.sortStages false)) ∧
      ((∃ key, search.sortKey = some key ∧ key ≠ "" ∧
          search.sortStages false =
            [[("$sort", .document [(key, .int32 search.sortDirection.sign)])]]) ∨
        (search.sortKey = none ∨ search.sortKey = some "") ∧ search.sortStages false = []) ∧
      (∀ pipeline, (search.compile settings joins extras true).outcome = .ok pipeline →
        ∃ projections before after,
          pipeline =
            projections ++ [("$match", .document before)] :: joins ++
              [[("$match", .document after)]] ∧
          search.afterProjection pipeline =
            [("$match", .document before)] :: joins ++ [[("$match", .document after)]] ∧
          ((search.select = none ∧ projections = []) ∨
            (search.select ≠ none ∧
              ∃ fields : List String, fields.Nodup ∧
                projections =
                  [[("$project", .document (fields.map fun field => (field, .int32 1)))]]))) ∧
      ∀ (limit : UInt64) (page offset : Option UInt64) (select : Option (List SelectedField))
        (skipsSort : Bool),
        ((({ search with limit, page, offset, select } : Search).compile
              settings joins extras skipsSort).andThen fun pipeline =>
            .result (({ search with limit, page, offset, select } : Search).afterProjection
              pipeline)) =
          ((search.compile settings joins extras skipsSort).andThen fun pipeline =>
            .result (search.afterProjection pipeline)) ∧
        (select = search.select →
          ({ search with limit, page, offset, select } : Search).compile
              settings joins extras skipsSort =
            search.compile settings joins extras skipsSort) := by
  refine ⟨search.compile_eq_skipped settings joins extras, ?_, ?_, ?_⟩
  · rcases search.sortStages_eq false with ⟨-, sorted⟩ | ⟨unsorted, empty⟩
    · exact .inl sorted
    · exact .inr ⟨unsorted.resolve_left Bool.false_ne_true, empty⟩
  · intro pipeline compiled
    rw [compile_eq_findingStages, Compiled.outcome_andThen_result_eq_ok_iff] at compiled
    rcases compiled with ⟨found, finds, rfl⟩
    obtain ⟨before, after, rfl⟩ := findingStages_eq_ok finds
    rw [sortStages_skipped, List.append_nil]
    refine ⟨Projection.stages settings search joins, before, after, ?_, ?_, ?_⟩
    · simp
    · exact afterProjection_stages_append settings search joins _
    · exact Projection.stages_eq_nil_or_inclusion settings search joins
  · intro limit page offset select skipsSort
    refine ⟨?_, ?_⟩
    · rw [compile_afterProjection, compile_afterProjection]
      rfl
    · rintro rfl
      rw [compile_eq_findingStages, compile_eq_findingStages]
      rfl

/-- The rows of the sample are counted by its matches, and listed by these and the sort. -/
theorem compile_finds_same_rows_sample :
    ∃ before after,
      (sample.compile {} [] sampleExtras true).outcome =
          .ok [[("$match", .document before)], [("$match", .document after)]] ∧
        (sample.compile {} [] sampleExtras false).outcome =
          .ok
            [[("$match", .document before)], [("$match", .document after)],
              [("$sort", .document [("age", .int32 1)])]] := by
  obtain ⟨sorted, -, layout, -⟩ := compile_finds_same_rows {} sample [] sampleExtras
  have counted : (sample.compile {} [] sampleExtras true).outcome = .ok (samplePipeline.take 2) :=
    rfl
  obtain ⟨_, before, after, -, found, -⟩ := layout _ counted
  have listed :
      samplePipeline.take 2 = [[("$match", .document before)], [("$match", .document after)]] :=
    found
  rw [listed] at counted
  refine ⟨before, after, counted, ?_⟩
  rw [sorted, Compiled.outcome_andThen_result_eq_ok_iff]
  exact ⟨_, counted, rfl⟩

end Search

/-! ## Requests in their three modes -/

/-- An engine that answers from the rows that a pipeline gives; a sort at its end reorders these. -/
structure Engine.AnswersFrom
    (engine : Engine)
    (find : List Document → List Document) :
    Prop where
  aggregates (pipeline : List Document) :
    engine.aggregate pipeline = .ok (find pipeline)
  paginates (pipeline : List Document) (paging : Paging) :
    engine.paginate pipeline paging = .ok (Page.ofAllRows (find pipeline) paging)
  counts (pipeline : List Document) :
    engine.count pipeline = .ok (UInt64.ofNat (find pipeline).length)
  reorders (pipeline : List Document) (key : String) (direction : Int32) :
    (find (pipeline ++ [[("$sort", .document [(key, .int32 direction)])]])).Perm (find pipeline)

theorem Engine.ofRows_answersFrom
    (rows : List Document) :
    (Engine.ofRows rows).AnswersFrom fun _ => rows where
  aggregates _ := rfl
  paginates _ _ := rfl
  counts _ := rfl
  reorders _ _ _ := .refl rows

theorem Engine.AnswersFrom.length_sorted
    {engine : Engine}
    {find : List Document → List Document}
    (answers : engine.AnswersFrom find)
    (search : Search)
    (pipeline : List Document) :
    (find (pipeline ++ search.sortStages false)).length = (find pipeline).length := by
  rcases search.sortStages_eq false with ⟨-, key, -, -, sorted⟩ | ⟨-, unsorted⟩
  · rw [sorted]
    exact (answers.reorders pipeline key _).length_eq
  · rw [unsorted, List.append_nil]

/--
A request is refused for the same problem in all modes, or the rows that are counted are
those that are listed, and those that the page is a part of.
-/
theorem Service.run_finds_same_rows
    (service : Service)
    {engine : Engine}
    {find : List Document → List Document}
    (answers : engine.AnswersFrom find)
    (request : SearchRequest) :
    (∃ problem, ∀ mode,
        (service.run engine { request with mode }).1.outcome = .error (.invalid problem)) ∨
      ∃ rows,
        (service.run engine { request with mode := .rows }).1.outcome = .ok (.rows rows) ∧
        (service.run engine { request with mode := .count }).1.outcome =
          .ok (.count (UInt64.ofNat rows.length)) ∧
        (service.run engine { request with mode := .page }).1.outcome =
          .ok (.page (Page.ofAllRows rows request.paging)) := by
  have sorted := request.search.compile_eq_skipped service.settings request.joins request.extras
  rcases counted :
    request.search.compile service.settings request.joins request.extras true with
      ⟨reversed, problem | pipeline⟩
  · rw [counted, Compiled.andThen] at sorted
    refine .inl ⟨problem, fun mode => ?_⟩
    have refused : Serves service.settings engine { request with mode } []
        ⟨reversed, .error (.invalid problem)⟩ := by
      refine .refused ?_
      cases mode with
      | count => exact counted
      | page => exact sorted
      | rows => exact sorted
    rw [refused.outcome_run]
  · simp only [counted, Compiled.andThen, Compiled.result, List.append_nil] at sorted
    -- The sort stands behind the pipeline that counts, and gives as many rows.
    have same := answers.length_sorted request.search pipeline
    have listed : Serves service.settings engine { request with mode := .rows } _ _ :=
      .listed rfl sorted
    have numbered : Serves service.settings engine { request with mode := .count } _ _ :=
      .counted rfl counted
    have paged : Serves service.settings engine { request with mode := .page } _ _ :=
      .paged rfl sorted
    refine .inr ⟨find (pipeline ++ request.search.sortStages false), ?_, ?_, ?_⟩
    · rw [listed.outcome_run, answers.aggregates]
      rfl
    · rw [numbered.outcome_run, answers.counts, same]
      rfl
    · rw [paged.outcome_run, answers.paginates]
      rfl

end SearchPipeline
