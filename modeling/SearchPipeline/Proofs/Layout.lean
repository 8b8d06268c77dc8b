import SearchPipeline.Proofs.ByteOrder
import SearchPipeline.Proofs.Fragments
import SearchPipeline.Proofs.Stage

/-!
# The layout of a pipeline

A pipeline is a projection, if fields are selected, a match, the stages of the
joins, a second match, and a sort, if one is wanted.  Each fragment of the filter
and of the quick search is a member of exactly one of the matches.
-/

namespace SearchPipeline

namespace Filter

theorem paths_pairwise_byteLess
    (filter : Filter) :
    filter.paths.Pairwise fun left right =>
      Utf8.ByteLess (Utf8.bytes left) (Utf8.bytes right) := by
  rw [paths, List.pairwise_map]
  exact filter.sorted.imp Utf8.byteLess_bytes

end Filter

namespace Search

/--
The stages of a pipeline, in order, and the members of its two matches, in order:
fragments of the filter, the extra condition, the fragment of the quick search; without
a filter the extra condition comes last, and without both it is the match itself.
-/
theorem compile_layout
    (settings : Settings)
    (search : Search)
    (joins : List Document)
    (extras : Conditions)
    (skipsSort : Bool)
    (pipeline : List Document)
    (compiled : (search.compile settings joins extras skipsSort).outcome = .ok pipeline) :
    ∃ (condition : Side → Document) (projections sorts following : List Document),
      pipeline = projections ++ following ∧
      following =
        [("$match", .document (condition .before))] :: joins ++
          [("$match", .document (condition .after))] :: sorts ∧
      projections = Projection.stages settings search following ∧
      ((search.select = none ∧ projections = []) ∨
        (search.select ≠ none ∧
          ∃ fields : List String, fields.Nodup ∧
            projections =
              [[("$project", .document (fields.map fun field => (field, .int32 1)))]])) ∧
      ((skipsSort = false ∧
          ∃ key, search.sortKey = some key ∧ key ≠ "" ∧
            sorts = [[("$sort", .document [(key, .int32 search.sortDirection.sign)])]]) ∨
        ((skipsSort = true ∨ search.sortKey = none ∨ search.sortKey = some "") ∧
          sorts = [])) ∧
      (∀ side, condition side =
        match search.filter, search.quick with
        | none, none => (extras.on side).getD []
        | some filter, none =>
          Document.conjunction (filter.fragments side ++ (extras.on side).toList)
        | none, some quick =>
          Document.conjunction (quick.fragments side ++ (extras.on side).toList)
        | some filter, some quick =>
          Document.conjunction
            (filter.fragments side ++ (extras.on side).toList ++ quick.fragments side)) ∧
      (∀ filter, search.filter = some filter →
        (filter.paths.Pairwise fun left right =>
          Utf8.ByteLess (Utf8.bytes left) (Utf8.bytes right)) ∧
        (∀ entry ∈ filter.entries, ∀ condition ∈ entry.2,
          ∃ part, (condition.compile entry.1).outcome = .ok part) ∧
        (filter.fragments .before ++ filter.fragments .after).Perm
          (filter.entries.filterMap fun entry => Filter.fragment? entry.1 entry.2)) ∧
      (∀ quick, search.quick = some quick →
        quick.fragments .before ++ quick.fragments .after =
          if quick.fields = [] then []
          else [Document.group "$or" (quick.fields.map quick.fieldDocument)]) := by
  obtain ⟨conditionsCompile, following, listed, joined⟩ := compile_eq_ok compiled
  refine ⟨search.matchDocument extras, _, search.sortStages skipsSort, following, joined, listed,
    rfl, Projection.stages_eq_nil_or_inclusion settings search following,
    search.sortStages_eq skipsSort, ?_, ?_, ?_⟩
  · intro side
    cases filtered : search.filter <;> cases found : search.quick <;>
      simp [matchDocument, members, filtered, found]
  · intro filter filtered
    exact ⟨filter.paths_pairwise_byteLess, conditionsCompile filter filtered, filter.fragments_perm⟩
  · intro quick _
    exact quick.fragments_append

theorem compile_layout_sample :
    ∃ before after,
      (sample.compile {} [] sampleExtras false).outcome =
        .ok
          [[("$match", .document before)], [("$match", .document after)],
            [("$sort", .document [("age", .int32 1)])]] ∧
      after =
        [("$and", .array
          [.document [("$or", .array [.document [("dept.name", .string "sales")]])],
            .document [("dept.active", .boolean true)]])] := by
  obtain ⟨condition, projections, sorts, following, -, -, -, -, -, conditions, -⟩ :=
    compile_layout {} sample [] sampleExtras false samplePipeline rfl
  refine ⟨condition .before, condition .after, ?_, ?_⟩
  · rw [conditions, conditions]
    rfl
  · rw [conditions]
    rfl

end Search

end SearchPipeline
