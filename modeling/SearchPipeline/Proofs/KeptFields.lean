import SearchPipeline.Join
import SearchPipeline.Proofs.FieldPath
import SearchPipeline.Proofs.Search

/-!
# The fields that a join keeps

Of what a join puts at a path, a search wants the fields that follow this path in the
paths that it reads; the name of a nested join stands for all that lies below it.  The
join keeps nothing but these if the search selects fields and does not select the joined
document as such.  Collapsing leaves a covering field for each of them, so what is kept
covers a path exactly when what is wanted does.
-/

namespace SearchPipeline.Join

/-! ## Reduced forms -/

/--
The reduced form of a path below a join: its first segment if this is the name of a join within
the join, and else the path itself.
-/
inductive Reduces (targets : List String) (path : String) : String → Prop where
  | target
      {target : String}
      (member : target ∈ targets)
      (first : FieldPath.IsFirstSegment target path) :
      Reduces targets path target
  | self
      (other : ∀ target ∈ targets, ¬ FieldPath.IsFirstSegment target path) :
      Reduces targets path path

theorem reduce_eq_iff
    {targets : List String}
    {path field : String} :
    reduce targets path = field ↔ Reduces targets path field := by
  rw [reduce]
  constructor
  · intro reduced
    split at reduced
    · rename_i listed
      exact .target (List.contains_iff_mem.mp (reduced ▸ listed))
        ((FieldPath.root_eq_iff path field).mp reduced)
    · rename_i unlisted
      subst reduced
      refine .self fun target member first => unlisted ?_
      rw [(FieldPath.root_eq_iff path target).mpr first]
      exact List.contains_iff_mem.mpr member
  · intro reduces
    cases reduces with
    | target member first =>
        rw [(FieldPath.root_eq_iff path field).mpr first,
          if_pos (List.contains_iff_mem.mpr member)]
    | self other =>
        refine if_neg fun listed => ?_
        exact other _ (List.contains_iff_mem.mp listed) (FieldPath.isFirstSegment_root path)

theorem reduce_empty (targets : List String) : reduce targets "" = "" := by
  rw [reduce]
  split <;> rfl

namespace Reduces

variable {targets : List String} {path field : String}

theorem covers (reduces : Reduces targets path field) : FieldPath.Covers field path := by
  cases reduces with
  | target member first => exact first.2
  | self other => exact FieldPath.covers_refl path

theorem ne_empty
    (reduces : Reduces targets path field)
    (named : ∀ target ∈ targets, target ≠ "")
    (nonempty : path ≠ "") :
    field ≠ "" := by
  cases reduces with
  | target member first => exact named field member
  | self other => exact nonempty

end Reduces

/-- Of the paths that have a start, the reduced forms of what follows it there, in order. -/
inductive ReducedForms
    (targets : List String)
    (start : String) :
    List String → List String → Prop where
  | nil : ReducedForms targets start [] []
  | keep
      {path suffix field : String}
      {paths fields : List String}
      (divided : path = start ++ suffix)
      (reduces : Reduces targets suffix field)
      (rest : ReducedForms targets start paths fields) :
      ReducedForms targets start (path :: paths) (field :: fields)
  | drop
      {path : String}
      {paths fields : List String}
      (elsewhere : ∀ suffix, path ≠ start ++ suffix)
      (rest : ReducedForms targets start paths fields) :
      ReducedForms targets start (path :: paths) fields

theorem map_reduce_eq_iff
    {targets paths fields : List String}
    {start : String} :
    (paths.filterMap (FieldPath.after? start)).map (reduce targets) = fields ↔
      ReducedForms targets start paths fields := by
  constructor
  · rintro rfl
    induction paths with
    | nil => exact .nil
    | cons path paths induction =>
        rw [List.filterMap_cons]
        cases found : FieldPath.after? start path with
        | none =>
            refine .drop (fun suffix divided => ?_) induction
            rw [(FieldPath.after?_eq_some_iff start path suffix).mpr divided] at found
            cases found
        | some suffix =>
            exact .keep ((FieldPath.after?_eq_some_iff start path suffix).mp found)
              (reduce_eq_iff.mp rfl) induction
  · intro forms
    induction forms with
    | nil => rfl
    | keep divided reduces rest induction =>
        rw [List.filterMap_cons_some ((FieldPath.after?_eq_some_iff _ _ _).mpr divided),
          List.map_cons, reduce_eq_iff.mpr reduces, induction]
    | @drop path paths fields elsewhere rest induction =>
        have other : FieldPath.after? start path = none := by
          rw [Option.eq_none_iff_forall_ne_some]
          exact fun suffix found =>
            elsewhere suffix ((FieldPath.after?_eq_some_iff start path suffix).mp found)
        rw [List.filterMap_cons_none other, induction]

theorem exists_reducedForms
    (targets : List String)
    (start : String)
    (paths : List String) :
    ∃ fields, ReducedForms targets start paths fields :=
  ⟨_, map_reduce_eq_iff.mp rfl⟩

/-! ## Wanted fields -/

/--
A field that a search wants of what a join puts at a start of paths, given the names of
the joins within the join.
-/
inductive Wants
    (targets : List String)
    (search : Search)
    (start : String) :
    String → Prop where
  | below
      {path suffix field : String}
      (reads : search.Reads path)
      (divided : path = start ++ suffix)
      (reduces : Reduces targets suffix field)
      (nonempty : field ≠ "") :
      Wants targets search start field

/--
A search narrows a join if it selects fields, does not select the joined document as such, by the
start without the dots it ends in, and wants a field of it.
-/
structure Narrows
    (targets : List String)
    (search : Search)
    (start : String) :
    Prop where
  selects : search.select ≠ none
  inParts : ∀ stem, FieldPath.IsStem stem start → ¬ search.Selects stem
  wants : ∃ field, Wants targets search start field

theorem forall_isStem_not_selects_iff
    (search : Search)
    (start : String) :
    (∀ stem, FieldPath.IsStem stem start → ¬ search.Selects stem) ↔
      ¬ search.Selects (FieldPath.withoutFinalDots start) := by
  simp only [← FieldPath.withoutFinalDots_eq_iff, forall_eq']

/-- The wanted fields are the reduced forms of what the search reads, apart from empty ones. -/
theorem ReducedForms.mem_iff_wants
    {search : Search}
    {select : List SelectedField}
    {targets fields : List String}
    {start : String}
    (forms : ReducedForms targets start (search.listedPaths select) fields)
    (selects : search.select = some select)
    (field : String) :
    field ∈ fields ∧ field ≠ "" ↔ Wants targets search start field := by
  obtain rfl := map_reduce_eq_iff.mpr forms
  simp only [List.mem_map, List.mem_filterMap, Search.mem_listedPaths_iff selects,
    FieldPath.after?_eq_some_iff, reduce_eq_iff]
  constructor
  · rintro ⟨⟨suffix, ⟨path, reads, divided⟩, reduces⟩, nonempty⟩
    exact .below reads divided reduces nonempty
  · rintro ⟨reads, divided, reduces, nonempty⟩
    exact ⟨⟨_, ⟨_, reads, divided⟩, reduces⟩, nonempty⟩

/-! ## Kept fields -/

theorem keptFields_of_select_none
    {search : Search}
    (nested : List Document)
    (start : String)
    (unselected : search.select = none) :
    keptFields nested search start = [] := by
  rw [keptFields, unselected]

theorem keptFields_of_selects
    {search : Search}
    {start : String}
    (nested : List Document)
    (whole : search.Selects (FieldPath.withoutFinalDots start)) :
    keptFields nested search start = [] := by
  obtain ⟨select, selects, selected, member, named⟩ := whole
  rw [keptFields, selects]
  exact if_pos (List.any_eq_true.mpr ⟨selected, member, decide_eq_true named⟩)

/-- Unless the joined document is selected as such, the reduced forms are kept, collapsed. -/
theorem keptFields_of_not_selects
    {nested : List Document}
    {search : Search}
    {select : List SelectedField}
    {start : String}
    {fields : List String}
    (selects : search.select = some select)
    (inParts : ¬ search.Selects (FieldPath.withoutFinalDots start))
    (forms :
      ReducedForms (Stage.joinTargets nested) start (search.listedPaths select) fields) :
    keptFields nested search start = FieldPath.collapse fields := by
  obtain rfl := map_reduce_eq_iff.mpr forms
  have unmatched : ¬ select.any (·.field = FieldPath.withoutFinalDots start) = true := by
    intro whole
    obtain ⟨selected, member, named⟩ := List.any_eq_true.mp whole
    exact inParts ⟨select, selects, selected, member, of_decide_eq_true named⟩
  rw [keptFields, selects, Search.listedPaths_eq]
  refine (if_neg unmatched).trans (FieldPath.collapse_eq_of_filter_eq ?_)
  -- If nothing follows the start in a path, the reduced form is empty too.
  rw [List.filter_map, List.filter_map, List.filter_filter]
  congr 1
  refine List.filter_congr fun suffix _ => ?_
  by_cases empty : suffix = ""
  · simp [empty, reduce_empty]
  · simp [empty]

theorem nodup_keptFields
    (nested : List Document)
    (search : Search)
    (start : String) :
    (keptFields nested search start).Nodup := by
  rw [keptFields]
  split
  · exact List.nodup_nil
  · split
    · exact List.nodup_nil
    · exact FieldPath.nodup_collapse _

/-- What a search narrows a join to covers a path exactly if a wanted field does. -/
theorem exists_mem_keptFields_covers_iff
    {nested : List Document}
    {search : Search}
    {start : String}
    (narrows : Narrows (Stage.joinTargets nested) search start)
    (path : String) :
    (∃ field ∈ keptFields nested search start, FieldPath.Covers field path) ↔
      ∃ field, Wants (Stage.joinTargets nested) search start field ∧
        FieldPath.Covers field path := by
  obtain ⟨select, selects⟩ := Option.ne_none_iff_exists'.mp narrows.selects
  obtain ⟨fields, forms⟩ :=
    exists_reducedForms (Stage.joinTargets nested) start (search.listedPaths select)
  rw [keptFields_of_not_selects selects
    ((forall_isStem_not_selects_iff search start).mp narrows.inParts) forms]
  simp only [← forms.mem_iff_wants selects]
  constructor
  · rintro ⟨field, kept, covers⟩
    have listed := (FieldPath.mem_collapse _ field).mp kept
    exact ⟨field, ⟨listed.1, listed.2.1⟩, covers⟩
  · rintro ⟨field, ⟨listed, nonempty⟩, covers⟩
    obtain ⟨key, kept, above⟩ := FieldPath.exists_covers_of_mem listed nonempty
    exact ⟨key, kept, above.trans covers⟩

/-- A join names no fields to keep exactly if the search does not narrow it. -/
theorem keptFields_eq_nil_iff
    (nested : List Document)
    (search : Search)
    (start : String) :
    keptFields nested search start = [] ↔
      ¬ Narrows (Stage.joinTargets nested) search start := by
  constructor
  · intro none narrows
    obtain ⟨field, wanted⟩ := narrows.wants
    obtain ⟨key, kept, -⟩ :=
      (exists_mem_keptFields_covers_iff narrows field).mpr
        ⟨field, wanted, FieldPath.covers_refl field⟩
    rw [none] at kept
    cases kept
  · intro unnarrowed
    cases selects : search.select with
    | none => exact keptFields_of_select_none nested start selects
    | some select =>
        by_cases whole : search.Selects (FieldPath.withoutFinalDots start)
        · exact keptFields_of_selects nested whole
        · obtain ⟨fields, forms⟩ :=
            exists_reducedForms (Stage.joinTargets nested) start (search.listedPaths select)
          rw [keptFields_of_not_selects selects whole forms, List.eq_nil_iff_forall_not_mem]
          intro field kept
          have listed := (FieldPath.mem_collapse _ field).mp kept
          have wanted := (forms.mem_iff_wants selects field).mp ⟨listed.1, listed.2.1⟩
          exact unnarrowed
            ⟨by simp [selects], (forall_isStem_not_selects_iff search start).mpr whole, field,
              wanted⟩

/-- A path that a search reads below a join leads to a wanted field that covers the rest of it. -/
theorem exists_wants_of_reads
    {targets : List String}
    {search : Search}
    {start path suffix : String}
    (named : ∀ target ∈ targets, target ≠ "")
    (reads : search.Reads path)
    (divided : path = start ++ suffix)
    (nonempty : suffix ≠ "") :
    ∃ field, Wants targets search start field ∧ FieldPath.Covers field suffix := by
  have reduces : Reduces targets suffix (reduce targets suffix) := reduce_eq_iff.mp rfl
  exact ⟨_, .below reads divided reduces (reduces.ne_empty named nonempty), reduces.covers⟩

end SearchPipeline.Join
