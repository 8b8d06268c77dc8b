import SearchPipeline.CommandLine
import SearchPipeline.Proofs.AcceptedValues
import SearchPipeline.Proofs.FilterGrammar
import SearchPipeline.Proofs.Operands

/-!
# Sound pipelines

What is sound in a request stays sound when the request is compiled: the stages are put
together from values of the request, and from documents whose keys are distinct.
-/

namespace SearchPipeline

open Json.Reader

namespace Document

/-- A document that is sound, as are all values in it. -/
def IsSound (document : Document) : Prop :=
  (Bson.document document).All Bson.IsSound

variable {document : Document}

theorem isSound_iff :
    document.IsSound ↔ (keys document).Nodup ∧ ∀ entry ∈ document, entry.2.All Bson.IsSound :=
  Bson.all_document_iff document

theorem isSound_nil :
    IsSound [] := by
  simp [isSound_iff, keys]

theorem isSound_singleton_iff
    (key : String)
    (value : Bson) :
    IsSound [(key, value)] ↔ value.All Bson.IsSound := by
  simp [isSound_iff, keys]

/-- A value under a key of a sound document is sound. -/
theorem IsSound.of_get?
    (sound : document.IsSound)
    {key : String}
    {value : Bson}
    (found : get? document key = some value) :
    value.All Bson.IsSound := by
  obtain ⟨distinct, values⟩ := isSound_iff.mp sound
  rw [get?_eq_lookup] at found
  exact values _ ((lookup_eq_some_iff distinct key value).mp found)

theorem isSound_group
    (operator : String)
    {members : List Document}
    (sound : ∀ member ∈ members, member.IsSound) :
    (group operator members).IsSound := by
  rw [group, isSound_singleton_iff, Bson.all_array_iff, List.forall_mem_map]
  exact ⟨trivial, sound⟩

theorem isSound_conjunction
    {members : List Document}
    (sound : ∀ member ∈ members, member.IsSound) :
    (conjunction members).IsSound := by
  cases members with
  | nil => exact isSound_nil
  | cons member members => exact isSound_group "$and" sound

end Document

namespace Bson

theorem all_isSound_entry_iff
    (key : String)
    (value : Bson) :
    (entry key value).All IsSound ↔ value.All IsSound :=
  Document.isSound_singleton_iff key value

theorem all_isSound_array_iff
    (items : List Bson) :
    (array items).All IsSound ↔ ∀ item ∈ items, item.All IsSound := by
  rw [all_array_iff]
  exact and_iff_right trivial

theorem all_isSound_toIdentifier
    {value : Bson}
    (sound : value.All IsSound) :
    value.toIdentifier.All IsSound := by
  unfold toIdentifier
  split
  · split
    · split
      · trivial
      · exact sound
    · exact sound
  · exact sound

theorem all_isSound_toIdentifiers
    {value : Bson}
    (sound : value.All IsSound) :
    ∀ item ∈ value.toIdentifiers, item.All IsSound := by
  unfold toIdentifiers
  split
  · rw [List.forall_mem_map]
    have values := (all_isSound_array_iff _).mp sound
    exact fun item member => all_isSound_toIdentifier (values item member)
  · rw [List.forall_mem_singleton]
    exact all_isSound_toIdentifier sound

end Bson

/-! ## Conditions -/

namespace Condition

/-- A condition with a sound value that is no empty list. -/
def IsSound (condition : Condition) : Prop :=
  condition.value.All Bson.IsSound ∧ condition.value ≠ .array []

theorem isSound_of_describes
    {given : Bson}
    (sound : given.All Bson.IsSound)
    {condition : Condition}
    (described : Describes given condition) :
    condition.IsSound := by
  cases described with
  | document found isValue =>
      exact ⟨Document.IsSound.of_get? sound found, isValue.notEmptyList⟩

theorem isSound_bounds
    {value : Bson}
    (sound : value.All Bson.IsSound) :
    Document.IsSound value.bounds := by
  unfold Bson.bounds
  split
  · have items := (Bson.all_isSound_array_iff _).mp sound
    have different : "$gte" ≠ "$lte" := by decide
    simp only [List.forall_mem_cons] at items
    simpa [Document.isSound_iff, Document.keys, different] using ⟨items.1, items.2.1⟩
  · exact (Document.isSound_singleton_iff _ _).mpr sound

/-- The document of a pattern has two texts under distinct keys. -/
theorem isSound_pattern
    (text options : String) :
    Document.IsSound [("$regex", .string text), ("$options", .string options)] := by
  have different : "$regex" ≠ "$options" := by decide
  have plain (text : String) : (Bson.string text).All Bson.IsSound := trivial
  simp [Document.isSound_iff, Document.keys, different, plain]

theorem all_isSound_operand
    (condition : Condition)
    {value : Bson}
    (sound : value.All Bson.IsSound) :
    (condition.operand value).All Bson.IsSound := by
  rw [operand]
  split
  case h_1 => exact Bson.all_isSound_toIdentifier sound
  case h_2 => exact isSound_pattern _ "i"
  case h_9 => exact isSound_bounds sound
  case h_10 =>
    rw [Bson.all_isSound_entry_iff, Bson.all_isSound_array_iff]
    exact Bson.all_isSound_toIdentifiers sound
  case h_11 =>
    rw [Bson.all_isSound_entry_iff, Bson.all_isSound_entry_iff, Bson.all_isSound_entry_iff,
      Bson.all_isSound_array_iff]
    exact Bson.all_isSound_toIdentifiers sound
  all_goals exact (Bson.all_isSound_entry_iff _ value).mpr sound

theorem all_isSound_operands
    {condition : Condition}
    (sound : condition.IsSound) :
    condition.operands.All Bson.IsSound := by
  rw [operands]
  split
  · by_cases listed : condition.value.IsList
    · obtain ⟨items, given⟩ := Bson.isList_iff.mp listed
      have values := sound.1
      rw [given, Bson.all_isSound_array_iff] at values
      rw [given, Bson.mapItems, Bson.all_isSound_array_iff, List.forall_mem_map]
      exact fun item member => all_isSound_operand condition (values item member)
    · rw [Bson.mapItems_of_not_isList listed]
      exact all_isSound_operand condition sound.1
  · exact all_isSound_operand condition sound.1

theorem isSound_comparing
    (field : String)
    {operands : Bson}
    (sound : operands.All Bson.IsSound) :
    (comparing field operands).IsSound := by
  by_cases listed : operands.IsList
  · obtain ⟨items, rfl⟩ := Bson.isList_iff.mp listed
    rw [Bson.all_isSound_array_iff] at sound
    refine Document.isSound_group "$or" ?_
    rw [List.forall_mem_map]
    exact fun item member => (Document.isSound_singleton_iff field item).mpr (sound item member)
  · rw [comparing_of_not_isList listed, Document.isSound_singleton_iff]
    exact sound

theorem isSound_of_document?
    {field : String}
    {condition : Condition}
    (sound : condition.IsSound)
    {rendered : Document}
    (found : condition.document? field = some rendered) :
    rendered.IsSound := by
  rw [document?] at found
  split at found
  · rename_i expression compiled
    rw [← Option.some.inj found, toDocument_of_compile sound.2 compiled]
    exact isSound_comparing field (all_isSound_operands sound)
  · contradiction

end Condition

/-! ## Filters and searches -/

namespace Filter

/-- A filter with sound conditions. -/
def IsSound (filter : Filter) : Prop :=
  ∀ entry ∈ filter.entries, ∀ condition ∈ entry.2, condition.IsSound

theorem isSound_documents
    {field : String}
    {conditions : List Condition}
    (sound : ∀ condition ∈ conditions, condition.IsSound)
    (required : Bool) :
    ∀ rendered ∈ documents field conditions required, rendered.IsSound := by
  intro rendered member
  obtain ⟨condition, kept, found⟩ := List.mem_filterMap.mp member
  exact Condition.isSound_of_document? (sound condition (List.mem_of_mem_filter kept)) found

theorem IsSound.fragments
    {filter : Filter}
    (sound : filter.IsSound)
    (wanted : Side) :
    ∀ fragment ∈ filter.fragments wanted, fragment.IsSound := by
  intro fragment member
  obtain ⟨entry, kept, found⟩ := List.mem_filterMap.mp member
  have conditions := sound entry (List.mem_of_mem_filter kept)
  exact Document.combine?_induction (fun operator _ _ _ => Document.isSound_group operator)
    (isSound_documents conditions true) (isSound_documents conditions false) found

theorem isSound_of_ofDocument
    {described : Document}
    (sound : described.IsSound)
    {filter : Filter}
    (read : ofDocument described = .ok filter) :
    filter.IsSound := by
  intro entry member condition asked
  obtain ⟨items, given, item, listed, describes⟩ := exists_describes_of_mem read member asked
  have values := (Bson.all_isSound_array_iff items).mp ((Document.isSound_iff.mp sound).2 _ given)
  exact Condition.isSound_of_describes (values item listed) describes

end Filter

namespace QuickSearch

theorem isSound_fragments
    (quick : QuickSearch)
    (wanted : Side) :
    ∀ fragment ∈ quick.fragments wanted, fragment.IsSound := by
  intro fragment member
  rw [fragments] at member
  split at member
  · rw [List.mem_singleton.mp member]
    refine Document.isSound_group "$or" ?_
    rw [List.forall_mem_map]
    intro field _
    exact (Document.isSound_singleton_iff _ _).mpr (Condition.isSound_pattern _ "i")
  · contradiction

end QuickSearch

/-- Conditions with sound documents. -/
def Conditions.IsSound (conditions : Conditions) : Prop :=
  ∀ side, ∀ document ∈ conditions.on side, document.IsSound

namespace Search

variable {search : Search} (sound : ∀ filter ∈ search.filter, filter.IsSound)
  {extras : Conditions} (soundExtras : extras.IsSound)

include sound soundExtras

theorem isSound_members
    (wanted : Side) :
    ∀ member ∈ search.members extras wanted, member.IsSound := by
  intro member listed
  rcases of_mem_members listed with ⟨filter, filtered, fragment⟩ | ⟨quick, -, fragment⟩ | extra
  · exact (sound filter filtered).fragments wanted member fragment
  · exact quick.isSound_fragments wanted member fragment
  · exact soundExtras wanted member extra

theorem isSound_matchDocument
    (wanted : Side) :
    (search.matchDocument extras wanted).IsSound := by
  rw [matchDocument]
  split
  · cases given : extras.on wanted with
    | none => exact Document.isSound_nil
    | some document => exact soundExtras wanted document given
  · exact Document.isSound_conjunction (isSound_members sound soundExtras wanted)

end Search

/-! ## Stages -/

namespace Stage

theorem isSound_matching
    {condition : Document}
    (sound : condition.IsSound) :
    (matching condition).IsSound :=
  (Document.isSound_singleton_iff _ _).mpr sound

theorem isSound_project
    (fields : List String) :
    (project fields).IsSound := by
  refine (Document.isSound_singleton_iff _ _).mpr ?_
  have start : Document.IsSound [] := Document.isSound_nil
  generalize ([] : Document) = before at start
  induction fields generalizing before with
  | nil => exact start
  | cons field fields induction =>
      have one : Bson.one.All Bson.IsSound := trivial
      exact induction _ (Bson.all_isSound_insert start field one)

theorem isSound_sort
    (field : String)
    (direction : Int32) :
    (sort field direction).IsSound := by
  rw [sort, Document.isSound_singleton_iff, Bson.all_isSound_entry_iff]
  trivial

end Stage

namespace Join

theorem isSound_flatten
    (join : Join) :
    join.flatten.IsSound := by
  rw [flatten, Document.isSound_singleton_iff, Bson.all_isSound_entry_iff,
    Bson.all_isSound_entry_iff, Bson.all_isSound_array_iff]
  simp only [List.forall_mem_cons]
  exact ⟨trivial, trivial, by simp⟩

theorem isSound_lookup
    (join : Join)
    {inner : List Document}
    (sound : ∀ stage ∈ inner, stage.IsSound) :
    (join.lookup inner).IsSound := by
  have text (value : String) : (Bson.string value).All Bson.IsSound := trivial
  rw [lookup, Document.isSound_iff]
  split
  · simp [Document.keys, text]
  · have stages : (Bson.array (inner.map .document)).All Bson.IsSound := by
      rw [Bson.all_isSound_array_iff, List.forall_mem_map]
      exact sound
    simp [Document.keys, text, stages]

theorem isSound_stages
    (join : Join)
    {nested : List Document}
    (sound : ∀ stage ∈ nested, stage.IsSound)
    (kept : List String) :
    ∀ stage ∈ join.stages nested kept, stage.IsSound := by
  have inner : ∀ stage ∈ innerStages nested kept, stage.IsSound := by
    rw [innerStages, List.forall_mem_append]
    refine ⟨sound, ?_⟩
    split
    · simp
    · rw [List.forall_mem_singleton]
      exact Stage.isSound_project kept
  rw [stages, List.forall_mem_cons]
  refine ⟨(Document.isSound_singleton_iff _ _).mpr (isSound_lookup join inner), ?_⟩
  split
  · simp
  · rw [List.forall_mem_singleton]
    exact isSound_flatten join

end Join

namespace JoinTree

mutual

theorem isSound_stages
    (search : Search)
    (around : String)
    (tree : JoinTree) :
    ∀ stage ∈ stages search around tree, stage.IsSound := by
  cases tree with
  | node join nested =>
      rw [stages]
      exact Join.isSound_stages join (isSound_listStages search _ nested) _
termination_by structural tree

theorem isSound_listStages
    (search : Search)
    (around : String)
    (trees : List JoinTree) :
    ∀ stage ∈ listStages search around trees, stage.IsSound := by
  cases trees with
  | nil => simp [listStages]
  | cons tree trees =>
      rw [listStages, List.forall_mem_append]
      exact ⟨isSound_stages search around tree, isSound_listStages search around trees⟩
termination_by structural trees

end

end JoinTree

/-! ## Requests -/

/-- A request in which all values that the client gave are sound. -/
structure Request.IsSound (request : Request) : Prop where
  filter : ∀ filter ∈ request.search.filter, filter.IsSound
  stages : ∀ stage ∈ request.stages, stage.IsSound
  extras : request.extras.IsSound

/-- Compiling puts stages together that are sound if the request is. -/
theorem Request.IsSound.compile
    {request : Request}
    (sound : request.IsSound)
    {settings : Settings}
    {pipeline : List Document}
    (compiled : (request.compile settings).outcome = .ok pipeline) :
    ∀ stage ∈ pipeline, stage.IsSound := by
  obtain ⟨-, following, listed, joined⟩ := Search.compile_eq_ok compiled
  have joins : ∀ stage ∈ request.joinSection, stage.IsSound := by
    rw [joinSection, List.forall_mem_append]
    exact ⟨JoinTree.isSound_listStages request.search "" request.joins, sound.stages⟩
  have sorts : ∀ stage ∈ request.search.sortStages request.skipsSort, stage.IsSound := by
    intro stage member
    obtain ⟨key, direction, rfl⟩ := Search.eq_sort_of_mem_sortStages member
    exact Stage.isSound_sort key direction
  have matching (side : Side) :
      (Stage.matching (request.search.matchDocument request.extras side)).IsSound :=
    Stage.isSound_matching (Search.isSound_matchDocument sound.filter sound.extras side)
  rw [joined, List.forall_mem_append]
  constructor
  · rcases Projection.stages_eq_nil_or_inclusion settings request.search following with
      ⟨-, none⟩ | ⟨-, fields, distinct, projected⟩
    · rw [none]
      simp
    · rw [projected, List.forall_mem_singleton]
      exact Stage.project_of_nodup distinct ▸ Stage.isSound_project fields
  · rw [listed, List.forall_mem_append, List.forall_mem_cons, List.forall_mem_cons]
    exact ⟨⟨matching .before, joins⟩, matching .after, sorts⟩

theorem Filter.ensures_read
    (levels : Nat) :
    Ensures Filter.IsSound (Filter.read levels) :=
  (Document.ensures_read levels).bind fun _ sound =>
    ensures_orInvalid fun _ read => isSound_of_ofDocument sound read

/-- A search that is read has the filter and the quick search that were read in it. -/
theorem Search.ensures_read_parts
    {filterHolds : Filter → Prop}
    {quickHolds : QuickSearch → Prop}
    (filters : ∀ levels, Ensures filterHolds (Filter.read levels))
    (quicks : ∀ levels, Ensures quickHolds (QuickSearch.read levels))
    (levels : Nat) :
    Ensures
      (fun search =>
        (∀ filter ∈ search.filter, filterHolds filter) ∧ ∀ quick ∈ search.quick, quickHolds quick)
      (Search.read levels) := by
  refine ensures_enter (fun levels => ensures_record _ ?_ (by simp)) levels
  simp only [List.forall_mem_cons]
  refine ⟨?_, ?_, ?_, ?_, ?_, ?_, ?_, ?_, by simp⟩
  case refine_6 =>
    intro search kept
    exact (ensures_optional (filters _)).bind fun filter holds => ensures_pure ⟨holds, kept.2⟩
  case refine_7 =>
    intro search kept
    exact (ensures_optional (quicks _)).bind fun quick holds => ensures_pure ⟨kept.1, holds⟩
  all_goals exact fun search kept => ensures_bind fun _ => ensures_pure kept

theorem Search.ensures_read
    (levels : Nat) :
    Ensures (fun search => ∀ filter ∈ search.filter, filter.IsSound) (Search.read levels) := by
  have any (levels : Nat) : Ensures (fun _ => True) (QuickSearch.read levels) :=
    fun _ _ _ _ => trivial
  intro tokens search rest read
  exact (ensures_read_parts Filter.ensures_read any levels tokens search rest read).1

/-- Whatever text a request is read from, the values in it are sound. -/
theorem Request.ensures_read
    (levels : Nat) :
    Ensures Request.IsSound (Request.read levels) := by
  have start : Request.IsSound {} :=
    { filter := by simp
      stages := by simp
      extras := by
        intro side
        cases side <;> simp [Conditions.on] }
  refine ensures_enter (fun levels => ensures_record _ ?_ start) levels
  simp only [List.forall_mem_cons]
  refine ⟨?_, ?_, ?_, ?_, ?_, ?_, by simp⟩
  · intro request kept
    exact (Search.ensures_read levels).bind fun search sound =>
      ensures_pure ⟨sound, kept.stages, kept.extras⟩
  · intro request kept
    exact ensures_bind fun joins => ensures_pure ⟨kept.filter, kept.stages, kept.extras⟩
  · intro request kept
    have stages := ensures_enter (fun levels => ensures_list (Document.ensures_read levels)) levels
    exact stages.bind fun stages sound => ensures_pure ⟨kept.filter, sound, kept.extras⟩
  · intro request kept
    refine (ensures_optional (Document.ensures_read levels)).bind fun before sound => ?_
    refine ensures_pure ⟨kept.filter, kept.stages, fun side => ?_⟩
    cases side with
    | before => exact sound
    | after => exact kept.extras .after
  · intro request kept
    refine (ensures_optional (Document.ensures_read levels)).bind fun after sound => ?_
    refine ensures_pure ⟨kept.filter, kept.stages, fun side => ?_⟩
    cases side with
    | before => exact kept.extras .before
    | after => exact sound
  · intro request kept
    exact ensures_bind fun skipsSort => ensures_pure ⟨kept.filter, kept.stages, kept.extras⟩

/-- All stages of a pipeline that a command prints are sound. -/
theorem Invocation.isSound_of_pipeline
    {invocation : Invocation}
    {pipeline : List Document}
    (compiled : invocation.pipeline = .ok pipeline) :
    ∀ stage ∈ pipeline, stage.IsSound := by
  unfold Invocation.pipeline at compiled
  obtain ⟨settings, -, afterSettings⟩ := (bind_eq_ok_iff _ _ _).mp compiled
  obtain ⟨text, -, afterText⟩ := (bind_eq_ok_iff _ _ _).mp afterSettings
  obtain ⟨request, read, outcome⟩ := (bind_eq_ok_iff _ _ _).mp afterText
  have sound : request.IsSound := by
    cases described : Request.ofText text with
    | ok other =>
        rw [described] at read
        cases read
        exact (Request.ensures_read maxLevels).of_run described
    | error refusal =>
        rw [described] at read
        contradiction
  cases result : (request.compile settings).outcome with
  | ok stages =>
      rw [result] at outcome
      cases outcome
      exact sound.compile result
  | error problem =>
      rw [result] at outcome
      contradiction

end SearchPipeline
