import SearchPipeline.Pipeline
import SearchPipeline.Proofs.FieldPath
import Mathlib.Data.List.Nodup

/-!
# Stages that are written and read

A projection of distinct fields has just these fields as its keys.  Of the stages
that are written here only those of joins are read as joins.
-/

namespace SearchPipeline

namespace Document

theorem insert_of_not_mem
    {document : Document}
    {key : String}
    (new : key ∉ keys document)
    (value : Bson) :
    insert document key value = document ++ [(key, value)] := by
  induction document with
  | nil => rfl
  | cons entry rest induction =>
      rcases entry with ⟨other, old⟩
      have split : key ≠ other ∧ key ∉ keys rest := by
        simpa [keys] using new
      rw [insert, if_neg (Ne.symm split.1), induction split.2, List.cons_append]

/-- An inclusion of fields: each field with the number one. -/
def inclusion (fields : List String) : Document :=
  fields.map fun field => (field, Bson.one)

@[simp]
theorem keys_inclusion
    (fields : List String) :
    keys (inclusion fields) = fields := by
  simp [keys, inclusion, Function.comp_def]

theorem keys_append
    (left right : Document) :
    keys (left ++ right) = keys left ++ keys right :=
  List.map_append

theorem getString?_eq_some_iff
    {document : Document}
    {key text : String} :
    getString? document key = some text ↔ get? document key = some (.string text) := by
  rw [getString?]
  split
  · rename_i found
    simp [found]
  · rename_i other
    simpa using other text

theorem getDocument?_eq_some_iff
    {document entries : Document}
    {key : String} :
    getDocument? document key = some entries ↔ get? document key = some (.document entries) := by
  rw [getDocument?]
  split
  · rename_i found
    simp [found]
  · rename_i other
    simpa using other entries

/-- Inserting distinct new fields one by one puts all of them at the end. -/
theorem foldl_insert_one
    (fields : List String)
    (document : Document)
    (distinct : (keys document ++ fields).Nodup) :
    fields.foldl (fun document field => insert document field Bson.one) document =
      document ++ inclusion fields := by
  induction fields generalizing document with
  | nil => simp [inclusion]
  | cons field rest induction =>
      have new : field ∉ keys document := by
        intro member
        exact List.disjoint_of_nodup_append distinct member List.mem_cons_self
      rw [List.foldl_cons, insert_of_not_mem new, induction]
      · simp [inclusion]
      · rw [keys_append, List.append_assoc]
        exact distinct

end Document

namespace Stage

/-- The strings that the joins among some stages have under a key. -/
theorem mem_filterMap_lookup?_iff
    {stages : List Document}
    {key text : String} :
    text ∈ (stages.filterMap lookup?).filterMap (Document.getString? · key) ↔
      ∃ stage ∈ stages, ∃ lookup, lookup? stage = some lookup ∧
        Document.getString? lookup key = some text := by
  simp only [List.mem_filterMap]
  constructor
  · rintro ⟨lookup, ⟨stage, member, joined⟩, found⟩
    exact ⟨stage, member, lookup, joined, found⟩
  · rintro ⟨stage, member, lookup, joined, found⟩
    exact ⟨lookup, ⟨stage, member, joined⟩, found⟩

/-- The names under which joins put what they find are the strings that the joins have for `as`. -/
theorem mem_joinTargets_iff
    (stages : List Document)
    (target : String) :
    target ∈ joinTargets stages ↔
      ∃ stage ∈ stages, ∃ lookup, Document.get? stage "$lookup" = some (.document lookup) ∧
        Document.get? lookup "as" = some (.string target) := by
  rw [joinTargets, mem_filterMap_lookup?_iff]
  simp only [lookup?, Document.getDocument?_eq_some_iff, Document.getString?_eq_some_iff]

/-- A projection of distinct fields includes these fields and no others, in order. -/
theorem project_of_nodup
    {fields : List String}
    (distinct : fields.Nodup) :
    project fields = [("$project", .document (Document.inclusion fields))] := by
  rw [project, Document.foldl_insert_one fields [] distinct, List.nil_append]

@[simp]
theorem lookup?_matching (condition : Document) : lookup? (matching condition) = none :=
  rfl

@[simp]
theorem lookup?_project (fields : List String) : lookup? (project fields) = none :=
  rfl

@[simp]
theorem lookup?_sort (field : String) (direction : Int32) :
    lookup? (sort field direction) = none :=
  rfl

end Stage

/-- A search that selects fields starts with an inclusion of distinct fields, and no other one does. -/
theorem Projection.stages_eq_nil_or_inclusion
    (settings : Settings)
    (search : Search)
    (following : List Document) :
    (search.select = none ∧ stages settings search following = []) ∨
      (search.select ≠ none ∧
        ∃ fields : List String, fields.Nodup ∧
          stages settings search following =
            [[("$project", .document (fields.map fun field => (field, .int32 1)))]]) := by
  rw [stages]
  cases search.select with
  | none => exact .inl ⟨rfl, rfl⟩
  | some select =>
      have distinct := FieldPath.nodup_collapse (neededFields settings search select following)
      exact .inr ⟨Option.some_ne_none select, _, distinct,
        congrArg List.singleton (Stage.project_of_nodup distinct)⟩

theorem Projection.eq_inclusion_of_mem_stages
    {settings : Settings}
    {search : Search}
    {following : List Document}
    {stage : Document}
    (member : stage ∈ stages settings search following) :
    ∃ fields : List String,
      stage = [("$project", .document (fields.map fun field => (field, .int32 1)))] := by
  rcases stages_eq_nil_or_inclusion settings search following with
    ⟨-, none⟩ | ⟨-, fields, -, included⟩
  · rw [none] at member
    cases member
  · rw [included] at member
    exact ⟨fields, List.mem_singleton.mp member⟩

/-- A sort stands at the end exactly if it is not left out and names a key. -/
theorem Search.sortStages_eq
    (search : Search)
    (skipsSort : Bool) :
    (skipsSort = false ∧
        ∃ key, search.sortKey = some key ∧ key ≠ "" ∧
          search.sortStages skipsSort =
            [[("$sort", .document [(key, .int32 search.sortDirection.sign)])]]) ∨
      ((skipsSort = true ∨ search.sortKey = none ∨ search.sortKey = some "") ∧
        search.sortStages skipsSort = []) := by
  rw [sortStages]
  cases search.sortKey with
  | none => exact Or.inr ⟨Or.inr (Or.inl rfl), rfl⟩
  | some key =>
      cases skipsSort with
      | true => exact Or.inr ⟨Or.inl rfl, by simp⟩
      | false =>
          by_cases empty : key = ""
          · subst empty
            exact Or.inr ⟨Or.inr (Or.inr rfl), by simp⟩
          · exact Or.inl ⟨rfl, key, rfl, empty, by simp [empty, Stage.sort, Bson.entry]⟩

theorem Search.eq_sort_of_mem_sortStages
    {search : Search}
    {skipsSort : Bool}
    {stage : Document}
    (member : stage ∈ search.sortStages skipsSort) :
    ∃ key direction, stage = [("$sort", .document [(key, .int32 direction)])] := by
  rcases search.sortStages_eq skipsSort with ⟨-, key, -, -, sorted⟩ | ⟨-, none⟩
  · rw [sorted] at member
    exact ⟨key, _, List.mem_singleton.mp member⟩
  · rw [none] at member
    cases member

/-- The matches and the sort around the stages of the joins are no joins. -/
theorem Search.filterMap_lookup?_around
    (search : Search)
    (before after : Document)
    (joins : List Document)
    (skipsSort : Bool) :
    (Stage.matching before :: joins ++
        Stage.matching after :: search.sortStages skipsSort).filterMap Stage.lookup? =
      joins.filterMap Stage.lookup? := by
  have noJoins : (search.sortStages skipsSort).filterMap Stage.lookup? = [] := by
    rw [sortStages]
    split
    · rfl
    · split <;> simp
  simp only [List.filterMap_append, List.filterMap_cons, Stage.lookup?_matching, noJoins,
    List.append_nil]

/-- So the fields that the joins read are the same with and without these stages. -/
theorem Search.joinLocalFields_around
    (search : Search)
    (before after : Document)
    (joins : List Document)
    (skipsSort : Bool) :
    Stage.joinLocalFields
        (Stage.matching before :: joins ++
          Stage.matching after :: search.sortStages skipsSort) =
      Stage.joinLocalFields joins := by
  rw [Stage.joinLocalFields, filterMap_lookup?_around, Stage.joinLocalFields]

end SearchPipeline
