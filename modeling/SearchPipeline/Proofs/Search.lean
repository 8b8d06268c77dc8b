import SearchPipeline.Search

/-!
# The paths that a search reads

A search reads the paths that it selects, those that its conditions look at, and the
one that it sorts by.
-/

namespace SearchPipeline.Search

theorem mem_filterPaths
    {search : Search}
    {path : String} :
    path ∈ search.filterPaths ↔
      (∃ filter, search.filter = some filter ∧ path ∈ filter.paths) ∨
        ∃ quick, search.quick = some quick ∧ path ∈ quick.fields := by
  rw [filterPaths, List.mem_append]
  cases search.filter <;> cases search.quick <;> simp

/-- A path that a search selects, or that its conditions or its sort look at. -/
inductive Reads (search : Search) : String → Prop where
  | selected
      {select : List SelectedField}
      {selected : SelectedField}
      (selects : search.select = some select)
      (member : selected ∈ select) :
      Reads search selected.field
  | filtered
      {filter : Filter}
      {path : String}
      (filters : search.filter = some filter)
      (member : path ∈ filter.paths) :
      Reads search path
  | searched
      {quick : QuickSearch}
      {path : String}
      (searches : search.quick = some quick)
      (member : path ∈ quick.fields) :
      Reads search path
  | sorted
      {key : String}
      (sorts : search.sortKey = some key) :
      Reads search key

/--
The paths that a search with some selection reads, in order: what is selected, the fields of the
filter, those of the quick search, and the key of the sort.
-/
def listedPaths
    (search : Search)
    (select : List SelectedField) :
    List String :=
  select.map (·.field) ++
    (search.filter.elim [] fun filter => filter.entries.map (·.1)) ++
    (search.quick.elim [] fun quick => quick.fields) ++
    search.sortKey.toList

theorem listedPaths_eq
    (search : Search)
    (select : List SelectedField) :
    search.listedPaths select =
      select.map (·.field) ++ search.filterPaths ++ search.sortKey.toList := by
  rw [listedPaths, filterPaths, ← List.append_assoc]
  cases search.filter <;> cases search.quick <;> rfl

/-- For the selection of the search these are all the paths that it reads. -/
theorem mem_listedPaths_iff
    {search : Search}
    {select : List SelectedField}
    (selects : search.select = some select)
    (path : String) :
    path ∈ search.listedPaths select ↔ Reads search path := by
  rw [listedPaths_eq, List.mem_append, List.mem_append, mem_filterPaths, List.mem_map,
    Option.mem_toList]
  constructor
  · rintro ((⟨selected, member, rfl⟩ | ⟨filter, filters, member⟩ | ⟨quick, searches, member⟩) |
      sorts)
    · exact .selected selects member
    · exact .filtered filters member
    · exact .searched searches member
    · exact .sorted sorts
  · intro reads
    cases reads with
    | @selected other _ selected member =>
        rw [selects, Option.some.injEq] at selected
        exact .inl (.inl ⟨_, selected ▸ member, rfl⟩)
    | filtered filters member =>
        exact .inl (.inr (.inl ⟨_, filters, member⟩))
    | searched searches member =>
        exact .inl (.inr (.inr ⟨_, searches, member⟩))
    | sorted sorts =>
        exact .inr sorts

/-- A search selects a path if the path itself is one of its selected fields. -/
def Selects (search : Search) (path : String) : Prop :=
  ∃ select, search.select = some select ∧ ∃ selected ∈ select, selected.field = path

end SearchPipeline.Search
