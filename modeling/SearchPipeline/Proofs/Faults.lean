import SearchPipeline.Proofs.Alternatives
import SearchPipeline.Proofs.SoundPipelines

/-!
# Searches that do not compile

A condition is at fault for what it asks, whatever the rest of the search is.  A search does
not compile exactly if one of its conditions is at fault or its quick search looks for an
empty text, and it says what is wrong with the first condition at fault, in the order of the
fields and of their conditions.  The bounds it warns about are those of the conditions in
front of that one.
-/

namespace SearchPipeline

/-! ## Conditions at fault -/

/-- A text or a number: what can be looked for in a text. -/
def Bson.IsTextual : Bson → Prop
  | .string _ | .int32 _ | .int64 _ | .double _ => True
  | _ => False

theorem Bson.toPattern?_eq_none_iff (value : Bson) :
    value.toPattern? = none ↔ ¬ value.IsTextual := by
  cases value <;> simp [toPattern?, IsTextual]

/-- Whether a value is a list of two bounds that look reversed. -/
def Bson.areReversedBounds : Bson → Bool
  | .array [lower, upper] => lower.looksReversed upper
  | _ => false

namespace Condition

/-- What is wrong with what a condition asks of a field. -/
inductive Fault (field : String) (condition : Condition) : InvalidRequest → Prop where
  | noList
      (mode : condition.mode = .between)
      (other : ∀ items, condition.value ≠ .array items) :
      Fault field condition (.rangeNotAList field)
  | notTwoValues
      {items : List Bson}
      (mode : condition.mode = .between)
      (listed : condition.value = .array items)
      (count : items.length ≠ 2) :
      Fault field condition (.rangeNotTwoValues field items.length)
  | noText
      (mode : condition.mode = .contains)
      (other : ∃ item ∈ condition.value.items, ¬ item.IsTextual) :
      Fault field condition (.unsupportedValue field "contains")
  | noProperty
      (mode : condition.mode = .arrayContainsObject)
      (missing : condition.property = none ∨ condition.property = some "") :
      Fault field condition (.missingProperty field)

/-- Whether a condition asks for a range whose two bounds look reversed. -/
def hasReversedBounds (condition : Condition) : Bool :=
  condition.mode = .between && condition.value.areReversedBounds

section Compile

variable (field : String) (problem : InvalidRequest)

theorem outcome_pattern_eq_error_iff (value : Bson) :
    (pattern field value).outcome = .error problem ↔
      ¬ value.IsTextual ∧ problem = .unsupportedValue field "contains" := by
  rw [← Bson.toPattern?_eq_none_iff, pattern]
  cases value.toPattern? with
  | some text => simp
  | none => simp [Compiled.problem, MatchMode.name, eq_comm]

theorem outcome_comparison_ne_error
    (operator : Comparison)
    (value : Bson) :
    (comparison field operator value).outcome ≠ .error problem := by
  rw [comparison, Ne, outcome_alternatives_eq_error_iff]
  exact (forall_not_first_iff _).mpr (by simp) problem

theorem outcome_range_eq_error_iff (value : Bson) :
    (range field value).outcome = .error problem ↔
      (∀ items, value ≠ .array items) ∧ problem = .rangeNotAList field ∨
        ∃ items, value = .array items ∧ items.length ≠ 2 ∧
          problem = .rangeNotTwoValues field items.length := by
  unfold range
  split
  · split <;> simp [Compiled.warned]
  · rename_i items others
    have count : items.length ≠ 2 := by
      intro two
      obtain ⟨lower, upper, rfl⟩ := List.length_eq_two.mp two
      exact others lower upper rfl
    simp [Compiled.problem, count, eq_comm]
  · rename_i other
    have single items : value ≠ .array items :=
      other items
    simp [Compiled.problem, single, eq_comm]

theorem outcome_elements_eq_error_iff
    (property : Option String)
    (value : Bson) :
    (elements field property value).outcome = .error problem ↔
      (property = none ∨ property = some "") ∧ problem = .missingProperty field := by
  unfold elements
  split
  · simp [Compiled.problem, eq_comm]
  · split
    · rename_i empty
      simp [Compiled.problem, empty, eq_comm]
    · rename_i named
      simp [named]

/-- A condition does not compile exactly if it is at fault. -/
theorem outcome_compile_eq_error_iff (condition : Condition) :
    (condition.compile field).outcome = .error problem ↔ Fault field condition problem := by
  constructor
  · intro fails
    unfold compile at fails
    cases mode : condition.mode with
    | contains =>
        simp only [mode, outcome_alternatives_eq_error_iff, outcome_pattern_eq_error_iff,
          first_and_eq_iff] at fails
        obtain ⟨other, rfl⟩ := fails
        exact .noText mode other
    | equals =>
        simp only [mode, outcome_alternatives_eq_error_iff] at fails
        exact ((forall_not_first_iff _).mpr (by simp) problem fails).elim
    | between =>
        simp only [mode, outcome_range_eq_error_iff] at fails
        rcases fails with ⟨other, rfl⟩ | ⟨items, listed, count, rfl⟩
        · exact .noList mode other
        · exact .notTwoValues mode listed count
    | arrayContains => simp [mode] at fails
    | arrayContainsObject =>
        simp only [mode, outcome_elements_eq_error_iff] at fails
        obtain ⟨missing, rfl⟩ := fails
        exact .noProperty mode missing
    | _ =>
        simp only [mode] at fails
        exact (outcome_comparison_ne_error _ _ _ _ fails).elim
  · intro fault
    unfold compile
    cases fault with
    | noList mode other =>
        simp only [mode, outcome_range_eq_error_iff]
        exact .inl ⟨other, trivial⟩
    | notTwoValues mode listed count =>
        simp only [mode, outcome_range_eq_error_iff]
        exact .inr ⟨_, listed, count, rfl⟩
    | noText mode other =>
        simp only [mode, outcome_alternatives_eq_error_iff, outcome_pattern_eq_error_iff,
          first_and_eq_iff]
        exact ⟨other, trivial⟩
    | noProperty mode missing =>
        simp only [mode, outcome_elements_eq_error_iff]
        exact ⟨missing, trivial⟩

theorem reversed_range (value : Bson) :
    (range field value).reversed = if value.areReversedBounds then [field] else [] := by
  cases value with
  | array items =>
      rcases items with _ | ⟨lower, _ | ⟨upper, _ | ⟨third, others⟩⟩⟩
      · rfl
      · rfl
      · by_cases above : lower.looksReversed upper <;>
          simp [range, Bson.areReversedBounds, above, Compiled.warned, Compiled.result]
      · rfl
  | _ => rfl

theorem reversed_comparison
    (operator : Comparison)
    (value : Bson) :
    (comparison field operator value).reversed = [] :=
  reversed_alternatives (fun _ => rfl) value

theorem reversed_pattern (value : Bson) : (pattern field value).reversed = [] := by
  unfold pattern
  split <;> rfl

theorem reversed_elements
    (property : Option String)
    (value : Bson) :
    (elements field property value).reversed = [] := by
  unfold elements
  split
  · rfl
  · split <;> rfl

/-- A condition warns about its field exactly if its bounds look reversed. -/
theorem reversed_compile (condition : Condition) :
    (condition.compile field).reversed = if condition.hasReversedBounds then [field] else [] := by
  unfold compile hasReversedBounds
  cases condition.mode with
  | between => simp [reversed_range]
  | contains => simp [reversed_alternatives (reversed_pattern field)]
  | equals => simp [reversed_alternatives, Compiled.result]
  | arrayContains => simp [Compiled.result]
  | arrayContainsObject => simp [reversed_elements]
  | _ => simp [reversed_comparison]

theorem Fault.hasReversedBounds_eq_false
    {field : String}
    {condition : Condition}
    {problem : InvalidRequest}
    (fault : Fault field condition problem) :
    condition.hasReversedBounds = false := by
  unfold hasReversedBounds
  cases fault with
  | noList mode other =>
      cases value : condition.value with
      | array items => exact (other items value).elim
      | _ => simp [Bson.areReversedBounds]
  | @notTwoValues items mode listed count =>
      rw [listed]
      unfold Bson.areReversedBounds
      split
      · rename_i same
        cases same
        exact (count rfl).elim
      · simp
  | noText mode other => simp [mode]
  | noProperty mode missing => simp [mode]

end Compile

end Condition

/-! ## Searches -/

namespace Compiled

theorem each_map
    {α β γ : Type}
    (make : α → β)
    (compile : β → Compiled γ)
    (items : List α) :
    each compile (items.map make) = each (fun item => compile (make item)) items := by
  induction items with
  | nil => rfl
  | cons item rest induction => rw [List.map_cons, each, each, induction]

end Compiled

namespace Filter

/-- The conditions of a filter with their fields, in the order of the fields. -/
def listedConditions (filter : Filter) : List (String × Condition) :=
  filter.entries.flatMap fun entry => entry.2.map fun condition => (entry.1, condition)

/-- A filter reports what its conditions report, one after another. -/
theorem report_compile
    (filter : Filter)
    (extras : Conditions) :
    (filter.compile extras).report =
      (Compiled.each (fun part => part.2.compile part.1) filter.listedConditions).report := by
  rw [compile, Compiled.report_andThen_result, compileFields, Compiled.report_andThen_result]
  refine Compiled.report_each_flatMap fun entry _ => ?_
  rw [compileField, Compiled.report_andThen_result, Compiled.each_map]

end Filter

namespace Search

/-- The conditions of the filter of a search, if it has one, with their fields. -/
def listedConditions (search : Search) : List (String × Condition) :=
  (search.filter.map Filter.listedConditions).getD []

/-- The search has a quick search that looks for an empty text. -/
def LooksForNothing (search : Search) : Prop :=
  ∃ quick, search.quick = some quick ∧ quick.value = ""

/-- What a search reports of its quick search. -/
def reportQuick (search : Search) : Compiled Unit :=
  match search.quick with
  | some quick => if quick.value = "" then .problem .emptySearchValue else .result ()
  | none => .result ()

theorem report_compile_quick
    {search : Search}
    {quick : QuickSearch}
    (found : search.quick = some quick)
    (extras : Conditions) :
    (quick.compile extras).report = search.reportQuick := by
  rw [QuickSearch.compile, reportQuick, found]
  split
  · rename_i empty
    simp [empty]
    rfl
  · rename_i filled
    simp [filled]

/-- A search reports what its conditions report, one after another, and then its quick search. -/
theorem report_compile
    (settings : Settings)
    (search : Search)
    (joins : List Document)
    (extras : Conditions)
    (skipsSort : Bool) :
    (search.compile settings joins extras skipsSort).report =
      (Compiled.each (fun part => part.2.compile part.1) search.listedConditions).report.andThen
        fun _ => search.reportQuick := by
  rw [compile, Compiled.report_andThen_result, compileConditions, listedConditions]
  cases filtered : search.filter with
  | none =>
      have nothing :
          (Compiled.each (fun part : String × Condition => part.2.compile part.1) []).report =
            .result () :=
        rfl
      rw [Option.map_none, Option.getD_none, nothing, Compiled.result_andThen]
      cases found : search.quick with
      | none => simp [reportQuick, found]
      | some quick => exact report_compile_quick found extras
  | some filter =>
      rw [Option.map_some, Option.getD_some, ← filter.report_compile extras]
      cases found : search.quick with
      | none =>
          have silent : search.reportQuick = .result () := by
            rw [reportQuick, found]
          rw [silent]
          exact (Compiled.andThen_result _).symm
      | some quick =>
          rw [← report_compile_quick found {}]
          exact Compiled.report_andThen fun _ => Compiled.report_andThen_result _ _

theorem reportQuick_outcome_eq_error_iff
    (search : Search)
    (problem : InvalidRequest) :
    search.reportQuick.outcome = .error problem ↔
      search.LooksForNothing ∧ problem = .emptySearchValue := by
  unfold reportQuick LooksForNothing
  cases search.quick with
  | none => simp
  | some quick =>
      by_cases empty : quick.value = ""
      · simp only [empty, ↓reduceIte, Compiled.problem, Except.error.injEq, Option.some.injEq,
          exists_eq_left', true_and]
        exact eq_comm
      · simp [empty]

theorem reversed_reportQuick (search : Search) : search.reportQuick.reversed = [] := by
  unfold reportQuick
  split
  · split <;> rfl
  · rfl

section Compile

variable
  (settings : Settings)
  (search : Search)
  (joins : List Document)
  (extras : Conditions)
  (skipsSort : Bool)

theorem outcome_compile_eq_error_iff (problem : InvalidRequest) :
    (search.compile settings joins extras skipsSort).outcome = .error problem ↔
      First (fun part => part.2.Fault part.1) search.listedConditions problem ∨
        (∀ part ∈ search.listedConditions, ∀ other, ¬ part.2.Fault part.1 other) ∧
          search.LooksForNothing ∧ problem = .emptySearchValue := by
  rw [← Compiled.outcome_report_eq_error_iff, report_compile,
    Compiled.outcome_andThen_eq_error_iff, exists_and_right, exists_eq_ok_iff]
  simp only [Compiled.outcome_report_eq_error_iff, Ne, Compiled.outcome_each_eq_error_iff,
    Condition.outcome_compile_eq_error_iff, forall_not_first_iff,
    reportQuick_outcome_eq_error_iff]

theorem reversed_compile :
    (search.compile settings joins extras skipsSort).reversed =
      (Compiled.each (fun part => part.2.compile part.1) search.listedConditions).reversed := by
  rw [← Compiled.reversed_report, report_compile,
    Compiled.reversed_andThen_of_silent fun _ => search.reversed_reportQuick,
    Compiled.reversed_report]

/-- The warnings are about the bounds of the conditions in front of the first one at fault. -/
theorem exists_reversed_compile_eq :
    ∃ front back,
      search.listedConditions = front ++ back ∧
        (∀ part ∈ front, ∀ problem, ¬ part.2.Fault part.1 problem) ∧
        (∀ part ∈ back.head?, ∃ problem, part.2.Fault part.1 problem) ∧
        (search.compile settings joins extras skipsSort).reversed =
          (front.filter (·.2.hasReversedBounds)).map (·.1) := by
  have warnings (parts : List (String × Condition)) :
      (parts.flatMap fun part => (part.2.compile part.1).reversed) =
        (parts.filter (·.2.hasReversedBounds)).map (·.1) := by
    simp only [Condition.reversed_compile]
    induction parts with
    | nil => rfl
    | cons part parts induction =>
        by_cases warns : part.2.hasReversedBounds <;> simp [warns, induction]
  simp only [reversed_compile, ← Condition.outcome_compile_eq_error_iff]
  by_cases flawed :
      ∃ problem, First (fun part => part.2.Fault part.1) search.listedConditions problem
  · obtain ⟨problem, front, part, back, listed, clean, fault⟩ := flawed
    simp only [← Condition.outcome_compile_eq_error_iff] at clean
    have fails := (Condition.outcome_compile_eq_error_iff part.1 problem part.2).mpr fault
    refine ⟨front, part :: back, listed, clean, by simpa using ⟨problem, fails⟩, ?_⟩
    rw [listed, Compiled.reversed_each_of_error clean fails, warnings,
      Condition.reversed_compile, fault.hasReversedBounds_eq_false]
    exact List.append_nil _
  · simp only [not_exists, forall_not_first_iff, ← Condition.outcome_compile_eq_error_iff]
      at flawed
    refine ⟨search.listedConditions, [], (List.append_nil _).symm, flawed, by simp, ?_⟩
    rw [Compiled.reversed_each_of_ok flawed, warnings]

end Compile

end Search

/-! ## Searches that are read -/

/-- A quick search that is described looks for some text. -/
theorem QuickSearch.value_ne_empty_of_ofDocument
    {described : Document}
    {quick : QuickSearch}
    (read : ofDocument described = .ok quick) :
    quick.value ≠ "" := by
  rw [ofDocument, bind_eq_ok_iff] at read
  obtain ⟨value, valued, following⟩ := read
  obtain ⟨fields, -, made⟩ := (bind_eq_ok_iff _ _ _).mp following
  cases made
  unfold valueOf at valued
  grind

open Json.Reader in
theorem QuickSearch.ensures_read
    (levels : Nat) :
    Ensures (fun quick => quick.value ≠ "") (QuickSearch.read levels) :=
  ensures_bind fun _ => ensures_orInvalid fun _ read => value_ne_empty_of_ofDocument read

theorem Search.not_looksForNothing_of_ofText
    {text : String}
    {search : Search}
    (read : ofText text = .ok search) :
    ¬ search.LooksForNothing := by
  have any (levels : Nat) : Json.Reader.Ensures (fun _ => True) (Filter.read levels) :=
    fun _ _ _ _ => trivial
  have parts := (ensures_read_parts any QuickSearch.ensures_read _).of_run read
  rintro ⟨quick, found, empty⟩
  exact parts.2 quick found empty

namespace Search

/--
A search does not compile exactly if a condition of its filter is at fault or its quick
search looks for an empty text.  It fails for the first condition at fault, in the order of
the fields' bytes and then of each field's list; the empty text is spoken of only if there
is none.  Of the ranges in front of that condition, each one with bounds that look reversed
gives one warning, in the same order.  A search that is read from a text can only fail for a
condition.
-/
theorem compile_fails_first
    (settings : Settings)
    (search : Search)
    (joins : List Document)
    (extras : Conditions)
    (skipsSort : Bool) :
    ((∃ problem, (search.compile settings joins extras skipsSort).outcome = .error problem) ↔
        (∃ part ∈ search.listedConditions, ∃ problem, part.2.Fault part.1 problem) ∨
          search.LooksForNothing) ∧
      (∀ problem,
        (search.compile settings joins extras skipsSort).outcome = .error problem ↔
          First (fun part => part.2.Fault part.1) search.listedConditions problem ∨
            (∀ part ∈ search.listedConditions, ∀ other, ¬ part.2.Fault part.1 other) ∧
              search.LooksForNothing ∧ problem = .emptySearchValue) ∧
      (∃ front back,
        search.listedConditions = front ++ back ∧
          (∀ part ∈ front, ∀ problem, ¬ part.2.Fault part.1 problem) ∧
          (∀ part ∈ back.head?, ∃ problem, part.2.Fault part.1 problem) ∧
          (search.compile settings joins extras skipsSort).reversed =
            (front.filter (·.2.hasReversedBounds)).map (·.1)) ∧
      (∀ filter, search.filter = some filter →
        filter.paths.Pairwise fun left right =>
          Utf8.ByteLess (Utf8.bytes left) (Utf8.bytes right)) ∧
      ∀ text, ofText text = .ok search →
        ∀ problem,
          (search.compile settings joins extras skipsSort).outcome = .error problem →
            ∃ field,
              problem = .rangeNotAList field ∨
                (∃ count, problem = .rangeNotTwoValues field count) ∨
                problem = .unsupportedValue field "contains" ∨
                problem = .missingProperty field := by
  refine ⟨?_, search.outcome_compile_eq_error_iff settings joins extras skipsSort,
    search.exists_reversed_compile_eq settings joins extras skipsSort,
    fun filter _ => filter.paths_pairwise_byteLess, ?_⟩
  · simp only [outcome_compile_eq_error_iff, exists_or, exists_first_iff, exists_and_left,
      exists_eq, and_true]
    by_cases faulty : ∃ part ∈ search.listedConditions, ∃ problem, part.2.Fault part.1 problem
    · simp only [faulty, true_or]
    · have clean : ∀ part ∈ search.listedConditions, ∀ other, ¬ part.2.Fault part.1 other :=
        fun part member other fault => faulty ⟨part, member, other, fault⟩
      simp only [faulty, false_or]
      exact and_iff_right clean
  · intro text read problem fails
    rcases (search.outcome_compile_eq_error_iff settings joins extras skipsSort problem).mp fails
      with ⟨-, part, -, -, -, fault⟩ | ⟨-, empty, -⟩
    · refine ⟨part.1, ?_⟩
      cases fault with
      | noList => exact .inl rfl
      | notTwoValues => exact .inr (.inl ⟨_, rfl⟩)
      | noText => exact .inr (.inr (.inl rfl))
      | noProperty => exact .inr (.inr (.inr rfl))
    · exact (not_looksForNothing_of_ofText read empty).elim

/-- A search with a range that looks reversed, two faults after it, and an empty text. -/
def faulty : Search where
  filter := some
    { entries :=
        [("name", [{ value := .string "ann", mode := .contains }]),
          ("since",
            [{ value := .array [.dateTime 2000, .dateTime 1000], mode := .between },
              { value := .array [.dateTime 1000], mode := .between },
              { value := .array [.dateTime 2000, .dateTime 1000], mode := .between }]),
          ("tags", [{ value := .string "new", mode := .arrayContainsObject }])]
      sorted := by decide }
  quick := some { value := "", fields := ["name"] }

/-- It fails for the first condition at fault, after the one warning in front of it. -/
theorem compile_fails_first_faulty :
    First (fun part => part.2.Fault part.1) faulty.listedConditions
        (.rangeNotTwoValues "since" 1) ∧
      (faulty.compile {} [] {} false).reversed = ["since"] := by
  have fails :=
    (compile_fails_first {} faulty [] {} false).2.1 (.rangeNotTwoValues "since" 1)
  rcases fails.mp rfl with first | ⟨-, -, other⟩
  · exact ⟨first, rfl⟩
  · cases other

end Search

end SearchPipeline
