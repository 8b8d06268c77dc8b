import SearchPipeline.Proofs.JoinTree

/-!
# What narrowed joins keep for others

A join is narrowed to what the search reads below its path, and to nothing else.  So a
field that something else reads, a condition on the objects of a joined list or a later
join by its local field, is kept exactly if the search does not narrow the join or
wants a field that covers it.  Likewise a join within a document that is selected whole
ends in a projection, unless the join's own path is selected or nothing is read below it.
-/

namespace SearchPipeline

theorem Stage.finalProjection?_project_covers_iff
    (field path : String) :
    (∀ projection, finalProjection? [project [field]] = some projection →
        ∃ included ∈ Document.keys projection, FieldPath.Covers included path) ↔
      FieldPath.Covers field path := by
  have projected :
      finalProjection? [project [field]] = some (Document.inclusion [field]) :=
    rfl
  have included : Document.keys (Document.inclusion [field]) = [field] :=
    rfl
  simp [projected, included]

/-! ## Conditions on the objects of a joined list -/

namespace Join

/-- The projection that a join adds to the stages nested in it, if it adds one, covers a path. -/
def Keeps
    (nested : List Document)
    (lookup : Document)
    (path : String) :
    Prop :=
  ∀ projection,
    Stage.finalProjection? ((Stage.inner lookup).drop nested.length) = some projection →
      ∃ field ∈ Document.keys projection, FieldPath.Covers field path

theorem keeps_lookup_iff
    (join : Join)
    (nested : List Document)
    (search : Search)
    (start path : String) :
    Keeps nested (join.lookup (innerStages nested (keptFields nested search start))) path ↔
      (Narrows (Stage.joinTargets nested) search start →
        ∃ field, Wants (Stage.joinTargets nested) search start field ∧
          FieldPath.Covers field path) := by
  have own (kept : List String) :
      (innerStages nested kept).drop nested.length = innerStages [] kept :=
    List.drop_left
  rw [Keeps, inner_lookup, own]
  exact finalProjection?_covers_iff rfl path

/-- The path of a join itself leads to no field below the join. -/
theorem eq_empty_of_eq_start_append
    {field start suffix : String}
    (atJoin : field = FieldPath.withoutFinalDots start ∨ start = field ++ ".")
    (below : field = start ++ suffix) :
    suffix = "" := by
  have shorter : field.length ≤ start.length := by
    rcases atJoin with rfl | rfl
    · exact FieldPath.length_withoutFinalDots_le start
    · simp
  have divided := congrArg String.length below
  rw [String.length_append] at divided
  rw [← String.length_eq_zero_iff]
  omega

end Join

/-- A condition on a property of the objects of a list looks for the property after the joins. -/
theorem Condition.compile_of_structural
    {condition : Condition}
    {property : String}
    (structural : condition.mode = .arrayContainsObject)
    (names : condition.property = some property)
    (nonempty : property ≠ "")
    (field : String) :
    condition.compile field =
      .result (.elementOneOf field property condition.value.toIdentifiers) := by
  rw [compile, structural]
  simp only [elements, names, if_neg nonempty]

theorem Filter.side_of_structural
    {conditions : List Condition}
    {condition : Condition}
    (member : condition ∈ conditions)
    (structural : condition.mode = .arrayContainsObject)
    (field : String) :
    side field conditions = .after :=
  if_pos (.inr ⟨condition, member, structural⟩)

namespace Join

/--
A condition at the path of a join itself looks after the joins for a property of the
joined objects.  Its path leads to no field below the join, so the property is kept
exactly if the search does not narrow the join, or wants a field that covers it.
-/
theorem stagesFor_keeps_property_iff
    (join : Join)
    (nested : List Document)
    (search : Search)
    (start : Option String)
    (filter : Filter)
    (field : String)
    (conditions : List Condition)
    (condition : Condition)
    (property : String)
    (filters : search.filter = some filter)
    (entry : (field, conditions) ∈ filter.entries)
    (member : condition ∈ conditions)
    (structural : condition.mode = .arrayContainsObject)
    (names : condition.property = some property)
    (nonempty : property ≠ "")
    (atJoin :
      field = FieldPath.withoutFinalDots (start.getD join.start) ∨
        start.getD join.start = field ++ ".") :
    Filter.side field conditions = .after ∧
      condition.compile field =
        .result (.elementOneOf field property condition.value.toIdentifiers) ∧
      search.Reads field ∧
      (∀ suffix, field = start.getD join.start ++ suffix → suffix = "") ∧
      ∃ lookup,
        (join.stagesFor nested (some search) start).filterMap Stage.lookup? = [lookup] ∧
          (Keeps nested lookup property ↔
            (Narrows (Stage.joinTargets nested) search (start.getD join.start) →
              ∃ wanted,
                Wants (Stage.joinTargets nested) search (start.getD join.start) wanted ∧
                  FieldPath.Covers wanted property)) := by
  refine ⟨Filter.side_of_structural member structural field,
    Condition.compile_of_structural structural names nonempty field,
    .filtered filters (List.mem_map_of_mem entry),
    fun suffix => eq_empty_of_eq_start_append atJoin, _, ?_, keeps_lookup_iff join nested search _ _⟩
  rw [stagesFor, filterMap_lookup?_stages]

/-- A join of the departments of a row, which stay a list. -/
def departments : Join where
  collection := "departments"
  localField := "deptId"
  foreignField := "_id"
  target := "dept"
  isArray := true

/-- A search for the rows that have a department called sales, with some fields to be shown. -/
def salesShowing (fields : List String) : Search where
  filter := some
    { entries :=
        [("dept",
            [{ value := .string "sales", mode := .arrayContainsObject, property := some "name" }])]
      sorted := by decide }
  select := some (fields.map fun field => { field, isExternal := true })

/-- The name is kept if it is shown too. -/
theorem stagesFor_keeps_property_shown :
    ∃ lookup,
      (departments.stagesFor [] (some (salesShowing ["dept.title", "dept.name"])) none).filterMap
          Stage.lookup? = [lookup] ∧
        Keeps [] lookup "name" := by
  obtain ⟨-, -, -, -, lookup, joined, keeps⟩ :=
    stagesFor_keeps_property_iff departments [] (salesShowing ["dept.title", "dept.name"]) none _
      "dept" _ _ "name" rfl List.mem_cons_self List.mem_cons_self rfl rfl (by decide) (by decide)
  have shown :
      SelectedField.mk "dept.name" true ∈
        (salesShowing ["dept.title", "dept.name"]).select.getD [] :=
    .tail _ List.mem_cons_self
  have read : (salesShowing ["dept.title", "dept.name"]).Reads "dept.name" :=
    .selected rfl shown
  have reduces : Reduces [] "name" "name" := .self (List.forall_mem_nil _)
  exact ⟨lookup, joined, keeps.mpr fun _ =>
    ⟨_, .below read (by decide) reduces (by decide), reduces.covers⟩⟩

/-- If only the title is shown, the join drops the name that the condition looks for. -/
theorem stagesFor_drops_property :
    ∃ lookup filter conditions condition,
      (departments.stagesFor [] (some (salesShowing ["dept.title"])) none).filterMap
          Stage.lookup? = [lookup] ∧
        (salesShowing ["dept.title"]).select = some [{ field := "dept.title", isExternal := true }] ∧
        (salesShowing ["dept.title"]).filter = some filter ∧
        ("dept", conditions) ∈ filter.entries ∧ condition ∈ conditions ∧
        condition.mode = .arrayContainsObject ∧ condition.property = some "name" ∧
        FieldPath.withoutFinalDots departments.start = "dept" ∧
        ¬ Keeps [] lookup "name" := by
  refine ⟨departments.lookup [Stage.project ["title"]], _, _, _, rfl, rfl, rfl,
    List.mem_cons_self, List.mem_cons_self, rfl, rfl, by decide, ?_⟩
  rw [Keeps, inner_lookup, List.length_nil, List.drop_zero,
    Stage.finalProjection?_project_covers_iff]
  decide

end Join

namespace Request

/-! ## Local fields of later joins -/

/--
Of two joins of one list, let the one read by its local field what the other puts below
its own name.  The field is kept there exactly if the search does not narrow the other
join, or wants a field that covers it.
-/
theorem compile_keeps_key_iff
    (settings : Settings)
    (request : Request)
    (pipeline : List Document)
    (compiled : (request.compile settings).outcome = .ok pipeline)
    (outer : List Nat)
    (first second : Nat)
    (start laterStart : String)
    (earlier later : JoinTree)
    (atFirst : JoinTree.At "" request.joins (outer ++ [first]) start earlier)
    (atSecond : JoinTree.At "" request.joins (outer ++ [second]) laterStart later)
    (suffix : String)
    (key : later.join.localField = earlier.join.target ++ "." ++ suffix) :
    (∃ lookup, Stage.lookupAt? pipeline (outer ++ [second]) = some lookup ∧
        Document.getString? lookup "localField" =
          some (earlier.join.target ++ "." ++ suffix)) ∧
      (Stage.KeepsAt pipeline (outer ++ [first]) earlier.join suffix ↔
        (Join.Narrows earlier.targets request.search start →
          ∃ field, Join.Wants earlier.targets request.search start field ∧
            FieldPath.Covers field suffix)) := by
  have joins := filterMap_lookup?_pipeline compiled
  refine ⟨?_, atFirst.keepsAt_iff joins suffix⟩
  obtain ⟨around, -, described⟩ := atSecond.lookupAt?_eq joins
  exact ⟨_, described, by rw [← key]; rfl⟩

/-- A request with two joins, of which the second reads what the first one finds. -/
def chained (fields : List String) : Request where
  search := { select := some (fields.map fun field => { field, isExternal := true }) }
  joins :=
    [.node
      { collection := "departments", localField := "deptId", foreignField := "_id",
        target := "dept" }
      [],
    .node
      { collection := "people", localField := "dept.managerId", foreignField := "_id",
        target := "manager" }
      []]

/-- The key of the second join is kept if it is shown too. -/
theorem compile_keeps_key_shown :
    ∃ pipeline,
      ((chained ["dept.title", "dept.managerId"]).compile {}).outcome = .ok pipeline ∧
        Stage.KeepsAt pipeline [0]
          { collection := "departments", localField := "deptId", foreignField := "_id",
            target := "dept" }
          "managerId" := by
  have shown :
      SelectedField.mk "dept.managerId" true ∈
        (chained ["dept.title", "dept.managerId"]).search.select.getD [] :=
    .tail _ List.mem_cons_self
  have read : (chained ["dept.title", "dept.managerId"]).search.Reads "dept.managerId" :=
    .selected rfl shown
  have keeps :=
    (compile_keeps_key_iff {} (chained ["dept.title", "dept.managerId"]) _ rfl [] 0 1 _ _ _ _
      (.here rfl) (.here rfl) "managerId" (by decide)).2
  have reduces : Join.Reduces [] "managerId" "managerId" := .self (List.forall_mem_nil _)
  exact ⟨_, rfl, keeps.mpr fun _ =>
    ⟨_, .below read (by decide) reduces (by decide), reduces.covers⟩⟩

/-- If only the title is shown, the first join drops the key that the second one reads. -/
theorem compile_drops_key :
    ∃ pipeline start laterStart earlier later,
      ((chained ["dept.title"]).compile {}).outcome = .ok pipeline ∧
        JoinTree.At "" (chained ["dept.title"]).joins [0] start earlier ∧
        JoinTree.At "" (chained ["dept.title"]).joins [1] laterStart later ∧
        later.join.localField = earlier.join.target ++ "." ++ "managerId" ∧
        ¬ Stage.KeepsAt pipeline [0] earlier.join "managerId" := by
  refine ⟨_, _, _, _, _, rfl, .here rfl, .here rfl, by decide, ?_⟩
  rw [Stage.KeepsAt, Stage.exists_inner_iff [Stage.project ["title"]] rfl,
    Stage.finalProjection?_project_covers_iff]
  decide

/-! ## Joins within a document that is selected whole -/

/--
Let a selected field be the path of a join or an ancestor of it.  The join ends in no
projection exactly if its own path is selected, apart from final dots, or the search
wants no field below it.
-/
theorem compile_passes_whole_iff
    (settings : Settings)
    (request : Request)
    (pipeline : List Document)
    (compiled : (request.compile settings).outcome = .ok pipeline)
    (place : List Nat)
    (start path : String)
    (tree : JoinTree)
    (at_place : JoinTree.At "" request.joins place start tree)
    (ends : start = path ++ ".")
    (whole :
      ∃ select, request.search.select = some select ∧
        ∃ selected ∈ select, FieldPath.Covers selected.field path) :
    Stage.PassesAt pipeline place tree.join ↔
      request.search.Selects (FieldPath.withoutFinalDots path) ∨
        ∀ field, ¬ Join.Wants tree.targets request.search start field := by
  obtain ⟨select, selects, -⟩ := whole
  rw [at_place.passesAt_iff (filterMap_lookup?_pipeline compiled),
    ← FieldPath.withoutFinalDots_append_dot path, ← ends]
  constructor
  · intro unnarrowed
    by_cases named : request.search.Selects (FieldPath.withoutFinalDots start)
    · exact .inl named
    · refine .inr fun field wanted => unnarrowed ⟨by simp [selects], ?_, field, wanted⟩
      exact (Join.forall_isStem_not_selects_iff request.search start).mpr named
  · rintro (named | unread) narrows
    · exact narrows.inParts _ (FieldPath.isStem_withoutFinalDots start) named
    · obtain ⟨field, wanted⟩ := narrows.wants
      exact unread field wanted

/-- A request that selects departments whole, and fields of their managers. -/
def departmentsWith (fields : List String) : Request where
  search :=
    { select := some (("dept" :: fields).map fun field => { field, isExternal := true }) }
  joins := sampleNested.joins

/-- The managers are passed on whole if their own path is selected too. -/
theorem compile_passes_whole_named :
    ∃ pipeline,
      ((departmentsWith ["dept.manager", "dept.manager.email"]).compile {}).outcome =
          .ok pipeline ∧
        Stage.PassesAt pipeline [0, 0]
          { collection := "people", localField := "managerId", foreignField := "_id",
            target := "manager" } := by
  have passes :=
    compile_passes_whole_iff {} (departmentsWith ["dept.manager", "dept.manager.email"]) _ rfl
      [0, 0] _ "dept.manager" _ (.within rfl (.here rfl)) (by decide)
      ⟨_, rfl, ⟨"dept", true⟩, List.mem_cons_self, by decide⟩
  have named :
      (departmentsWith ["dept.manager", "dept.manager.email"]).search.Selects
        (FieldPath.withoutFinalDots "dept.manager") :=
    ⟨_, rfl, ⟨"dept.manager", true⟩, .tail _ List.mem_cons_self, by decide⟩
  exact ⟨_, rfl, passes.mpr (.inl named)⟩

/-- Otherwise a selected field of theirs narrows them, though their department is selected whole. -/
theorem compile_narrows_within_whole :
    ∃ pipeline start tree select selected,
      ((departmentsWith ["dept.manager.email"]).compile {}).outcome = .ok pipeline ∧
        JoinTree.At "" (departmentsWith ["dept.manager.email"]).joins [0, 0] start tree ∧
        start = "dept.manager" ++ "." ∧
        (departmentsWith ["dept.manager.email"]).search.select = some select ∧
        selected ∈ select ∧ FieldPath.Covers selected.field "dept.manager" ∧
        ¬ Stage.PassesAt pipeline [0, 0] tree.join := by
  refine ⟨_, _, _, _, ⟨"dept", true⟩, rfl, .within rfl (.here rfl), by decide, rfl,
    List.mem_cons_self, by decide, ?_⟩
  rw [Stage.PassesAt, Stage.exists_inner_iff [Stage.project ["email"]] rfl]
  exact Option.some_ne_none _

end Request

end SearchPipeline
