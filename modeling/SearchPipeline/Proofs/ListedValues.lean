import SearchPipeline.Proofs.Faults
import SearchPipeline.Proofs.Groups

/-!
# Lists of values

A condition that is given a list asks for any of its items.  Modes that take the items one by
one make alternatives of what each item compiles to by itself, and fail for the first item that
does not compile.  Modes that take the list as a whole put the values of all items into one
comparison.  An item that is a list again would by itself stand for its own items, so there
must be none.
-/

namespace SearchPipeline

/-- What is compiled of each item only depends on what is done with the items of the list. -/
theorem Compiled.each_congr
    {α β : Type}
    {compile other : α → Compiled β}
    {items : List α}
    (same : ∀ item ∈ items, compile item = other item) :
    each compile items = each other items := by
  induction items with
  | nil => rfl
  | cons item rest induction =>
      rw [List.forall_mem_cons] at same
      rw [each, each, same.1, induction same.2]

namespace Condition

/-- The condition that asks for another value in the same way. -/
def withValue
    (condition : Condition)
    (value : Bson) :
    Condition :=
  { condition with value }

variable
  {field : String}
  {condition : Condition}
  {items : List Bson}
  (single : ∀ item ∈ items, ¬ item.IsList)

/-! ## Items one by one -/

theorem alternatives_of_not_isList
    (compile : Bson → Compiled Expression)
    {value : Bson}
    (single : ¬ value.IsList) :
    alternatives compile value = compile value := by
  cases value with
  | array => exact (single trivial).elim
  | _ => rfl

/-- A mode that takes items one by one does the same with each value, alone or in a list. -/
theorem exists_compile_eq_alternatives
    (itemwise : condition.mode.isItemwise = true)
    (field : String) :
    ∃ compileValue : Bson → Compiled Expression, ∀ value,
      (condition.withValue value).compile field = alternatives compileValue value := by
  rcases condition with ⟨_, mode, isRequired, property⟩
  cases mode with
  | between | arrayContains | arrayContainsObject => contradiction
  | _ => exact ⟨_, fun _ => rfl⟩

section Itemwise

variable (itemwise : condition.mode.isItemwise = true)

include itemwise single

/-- A list compiles to the alternatives of what its items compile to by themselves. -/
theorem compile_list_eq :
    (condition.withValue (.array items)).compile field =
      (Compiled.each (fun item => (condition.withValue item).compile field) items).andThen
        fun members => .result (.any members) := by
  obtain ⟨compileValue, compiles⟩ := exists_compile_eq_alternatives itemwise field
  have alone : ∀ item ∈ items,
      compileValue item = (condition.withValue item).compile field := by
    intro item member
    rw [compiles, alternatives_of_not_isList compileValue (single item member)]
  rw [compiles, alternatives, Compiled.each_congr alone]

theorem outcome_compile_list_eq_ok_iff (expression : Expression) :
    ((condition.withValue (.array items)).compile field).outcome = .ok expression ↔
      ∃ members,
        List.Forall₂
            (fun item member =>
              ((condition.withValue item).compile field).outcome = .ok member)
            items members ∧
          expression = .any members := by
  rw [compile_list_eq single itemwise, Compiled.outcome_andThen_result_eq_ok_iff]
  simp only [Compiled.outcome_each_eq_ok_iff, eq_comm (a := expression)]

theorem outcome_compile_list_eq_error_iff (problem : InvalidRequest) :
    ((condition.withValue (.array items)).compile field).outcome = .error problem ↔
      First
        (fun item problem =>
          ((condition.withValue item).compile field).outcome = .error problem)
        items problem := by
  rw [compile_list_eq single itemwise, Compiled.outcome_andThen_eq_error_iff,
    Compiled.outcome_each_eq_error_iff]
  simp

/-- The alternatives are true exactly if an item is true by itself, unless there are none. -/
theorem holds_list_iff
    (filled : items ≠ [])
    {expression : Expression}
    (compiled :
      ((condition.withValue (.array items)).compile field).outcome = .ok expression)
    (valuation : Valuation) :
    expression.toDocument.holds valuation = true ↔
      ∃ item ∈ items, (condition.withValue item).Holds valuation field := by
  obtain ⟨members, each, rfl⟩ :=
    (outcome_compile_list_eq_ok_iff single itemwise expression).mp compiled
  have nonempty : members ≠ [] := by
    rintro rfl
    exact filled (List.forall₂_nil_right_iff.mp each)
  rw [Expression.toDocument_any nonempty, Document.holds_group_or, List.any_map, List.any_eq_true]
  clear filled compiled nonempty
  induction each with
  | nil => simp
  | @cons item member items members first rest induction =>
      have others := induction fun other listed => single other (.tail _ listed)
      rw [List.exists_mem_cons_iff, List.exists_mem_cons_iff]
      refine or_congr ?_ others
      simp [Holds, first]

/-- A list without items asks for nothing. -/
theorem list_holds_iff (valuation : Valuation) :
    (condition.withValue (.array items)).Holds valuation field ↔
      (∃ expression,
          ((condition.withValue (.array items)).compile field).outcome = .ok expression) ∧
        (items ≠ [] → ∃ item ∈ items, (condition.withValue item).Holds valuation field) := by
  by_cases filled : items = []
  · subst filled
    have empty : (condition.withValue (.array [])).compile field = .result (.any []) :=
      compile_list_eq single itemwise
    simp [Holds, empty, Expression.toDocument, Document.holds]
  · simp only [Holds, ne_eq, filled, not_false_eq_true, forall_const, ← exists_and_right]
    refine exists_congr fun expression => and_congr_right fun compiled => ?_
    exact holds_list_iff single itemwise filled compiled valuation

end Itemwise

section Members

variable
  (itemwise : condition.mode.isItemwise = true)
  {others : List Bson}
  (same : ∀ item, item ∈ others ↔ item ∈ items)

include itemwise same

theorem Fault.of_mem_iff
    {problem : InvalidRequest}
    (fault : Fault field (condition.withValue (.array items)) problem) :
    Fault field (condition.withValue (.array others)) problem := by
  cases fault with
  | noText mode other =>
      obtain ⟨item, member, noText⟩ := other
      exact .noText mode ⟨item, (same item).mpr member, noText⟩
  | noList mode | notTwoValues mode | noProperty mode =>
      have asked : condition.mode = _ := mode
      rw [asked] at itemwise
      contradiction

/-- Lists with the same items do not compile for the same reason. -/
theorem outcome_compile_list_eq_error_congr (problem : InvalidRequest) :
    ((condition.withValue (.array others)).compile field).outcome = .error problem ↔
      ((condition.withValue (.array items)).compile field).outcome = .error problem := by
  rw [outcome_compile_eq_error_iff, outcome_compile_eq_error_iff]
  constructor
  · exact Fault.of_mem_iff itemwise fun item => (same item).symm
  · exact Fault.of_mem_iff itemwise same

include single

/-- Lists with the same items, in any order and however often, ask for the same. -/
theorem list_holds_congr (valuation : Valuation) :
    (condition.withValue (.array others)).Holds valuation field ↔
      (condition.withValue (.array items)).Holds valuation field := by
  have otherSingle : ∀ item ∈ others, ¬ item.IsList :=
    fun item member => single item ((same item).mp member)
  have filled : others ≠ [] ↔ items ≠ [] := by
    simp only [ne_eq, List.eq_nil_iff_forall_not_mem, same]
  rw [list_holds_iff otherSingle itemwise, list_holds_iff single itemwise, exists_eq_ok_iff,
    exists_eq_ok_iff, filled]
  simp only [same, ne_eq, outcome_compile_list_eq_error_congr itemwise same]

end Members

/-! ## Lists as a whole -/

/-- The one fragment for some values, of a condition whose mode takes a list as a whole. -/
inductive ComparesAny
    (field : String)
    (condition : Condition)
    (values : List Bson) :
    Expression → Prop where
  | oneOf
      (mode : condition.mode = .arrayContains) :
      ComparesAny field condition values (.oneOf field values)
  | elementOneOf
      {property : String}
      (mode : condition.mode = .arrayContainsObject)
      (named : condition.property = some property)
      (filled : property ≠ "") :
      ComparesAny field condition values (.elementOneOf field property values)

theorem ComparesAny.unique
    {values others : List Bson}
    {expression : Expression}
    (compares : ComparesAny field condition values expression)
    (alike : ComparesAny field condition others expression) :
    values = others := by
  cases compares <;> cases alike <;> rfl

/-- The values have no part in whether there is a fragment for them. -/
theorem ComparesAny.exists_of
    {values : List Bson}
    {expression : Expression}
    (compares : ComparesAny field condition values expression)
    (others : List Bson) :
    ∃ part, ComparesAny field condition others part := by
  cases compares with
  | oneOf mode => exact ⟨_, .oneOf mode⟩
  | elementOneOf mode named filled => exact ⟨_, .elementOneOf mode named filled⟩

theorem toIdentifiers_of_not_isList
    {value : Bson}
    (single : ¬ value.IsList) :
    value.toIdentifiers = [value.toIdentifier] := by
  cases value with
  | array => exact (single trivial).elim
  | _ => rfl

section Whole

variable (whole : condition.mode = .arrayContains ∨ condition.mode = .arrayContainsObject)

include whole

theorem outcome_compile_whole_eq_ok_iff
    (value : Bson)
    (expression : Expression) :
    ((condition.withValue value).compile field).outcome = .ok expression ↔
      ComparesAny field condition value.toIdentifiers expression := by
  constructor
  · intro compiled
    rw [compile, withValue] at compiled
    rcases whole with mode | mode
    · simp only [mode, Compiled.outcome_result, Except.ok.injEq] at compiled
      exact compiled ▸ .oneOf mode
    · simp only [mode, elements] at compiled
      split at compiled
      · contradiction
      · rename_i property named
        split at compiled
        · contradiction
        · rename_i filled
          rw [Compiled.outcome_result, Except.ok.injEq] at compiled
          exact compiled ▸ .elementOneOf mode named filled
  · intro compares
    rw [compile, withValue]
    cases compares with
    | oneOf mode => simp only [mode, Compiled.outcome_result]
    | elementOneOf mode named filled =>
        simp only [mode, named, elements, filled, ↓reduceIte, Compiled.outcome_result]

/-- A condition of such a mode only fails for want of a property to look at. -/
theorem outcome_compile_whole_eq_error_iff
    (value : Bson)
    (problem : InvalidRequest) :
    ((condition.withValue value).compile field).outcome = .error problem ↔
      condition.mode = .arrayContainsObject ∧
        (condition.property = none ∨ condition.property = some "") ∧
        problem = .missingProperty field := by
  rw [compile, withValue]
  rcases whole with mode | mode
  · simp [mode]
  · simp [mode, outcome_elements_eq_error_iff]

include single

/-- A list compiles to the fragment for the values of all items, one after another. -/
theorem outcome_compile_whole_list_eq_ok_iff (expression : Expression) :
    ((condition.withValue (.array items)).compile field).outcome = .ok expression ↔
      ∃ lists : List (List Bson),
        List.Forall₂
            (fun item values => ∃ part,
              ((condition.withValue item).compile field).outcome = .ok part ∧
                ComparesAny field condition values part)
            items lists ∧
          ComparesAny field condition lists.flatten expression := by
  simp only [outcome_compile_whole_eq_ok_iff whole]
  constructor
  · intro compares
    refine ⟨items.map fun item => [item.toIdentifier], ?_, ?_⟩
    · rw [List.forall₂_map_right_iff, List.forall₂_same]
      intro item member
      obtain ⟨part, alone⟩ := compares.exists_of [item.toIdentifier]
      exact ⟨part, toIdentifiers_of_not_isList (single item member) ▸ alone, alone⟩
    · rw [← List.flatMap_def, ← List.map_eq_flatMap]
      exact compares
  · rintro ⟨lists, each, compares⟩
    have listed : lists.flatten = items.map Bson.toIdentifier := by
      clear compares
      induction each with
      | nil => rfl
      | @cons item values items lists first rest induction =>
          obtain ⟨part, alone, alike⟩ := first
          rw [List.forall_mem_cons] at single
          rw [List.flatten_cons, List.map_cons, induction single.2, alike.unique alone,
            toIdentifiers_of_not_isList single.1]
          rfl
    rw [Bson.toIdentifiers, ← listed]
    exact compares

end Whole

/--
A condition that is given a list, of which no item is a list, asks for any of the items.  If its
mode takes the items one by one, it compiles exactly if each item does by itself, to the
alternatives in the order of the items, and fails for the first item that does not.  If there are
items, the alternatives are true exactly if an item is true by itself, whatever the entries mean,
and a list with the same items in another order or more often asks for the same.  If the mode
takes the list as a whole, it compiles to one fragment for the values of all items, one after
another, and only fails for want of a property to look at.
-/
theorem compile_list_asks_any
    (field : String)
    (condition : Condition)
    (items : List Bson)
    (single : ∀ item ∈ items, ¬ item.IsList) :
    (condition.mode.isItemwise = true →
      (∀ expression,
        ((condition.withValue (.array items)).compile field).outcome = .ok expression ↔
          ∃ members,
            List.Forall₂
                (fun item member =>
                  ((condition.withValue item).compile field).outcome = .ok member)
                items members ∧
              expression = .any members) ∧
      (∀ problem,
        ((condition.withValue (.array items)).compile field).outcome = .error problem ↔
          First
            (fun item problem =>
              ((condition.withValue item).compile field).outcome = .error problem)
            items problem) ∧
      (items ≠ [] → ∀ expression,
        ((condition.withValue (.array items)).compile field).outcome = .ok expression →
          ∀ valuation,
            expression.toDocument.holds valuation = true ↔
              ∃ item ∈ items, (condition.withValue item).Holds valuation field) ∧
      ∀ others : List Bson, (∀ item, item ∈ others ↔ item ∈ items) →
        (∀ problem,
          ((condition.withValue (.array others)).compile field).outcome = .error problem ↔
            ((condition.withValue (.array items)).compile field).outcome = .error problem) ∧
        ∀ valuation,
          (condition.withValue (.array others)).Holds valuation field ↔
            (condition.withValue (.array items)).Holds valuation field) ∧
    (condition.mode = .arrayContains ∨ condition.mode = .arrayContainsObject →
      (∀ expression,
        ((condition.withValue (.array items)).compile field).outcome = .ok expression ↔
          ∃ lists : List (List Bson),
            List.Forall₂
                (fun item values => ∃ part,
                  ((condition.withValue item).compile field).outcome = .ok part ∧
                    ComparesAny field condition values part)
                items lists ∧
              ComparesAny field condition lists.flatten expression) ∧
      ∀ problem,
        ((condition.withValue (.array items)).compile field).outcome = .error problem ↔
          condition.mode = .arrayContainsObject ∧
            (condition.property = none ∨ condition.property = some "") ∧
            problem = .missingProperty field) := by
  constructor
  · intro itemwise
    refine ⟨outcome_compile_list_eq_ok_iff single itemwise,
      outcome_compile_list_eq_error_iff single itemwise,
      fun filled _ compiled => holds_list_iff single itemwise filled compiled, ?_⟩
    intro others same
    exact ⟨outcome_compile_list_eq_error_congr itemwise same,
      list_holds_congr single itemwise same⟩
  · intro whole
    exact ⟨outcome_compile_whole_list_eq_ok_iff single whole,
      outcome_compile_whole_eq_error_iff whole (.array items)⟩

/-- A condition that looks for a text or a number. -/
def looking : Condition where
  value := .null
  mode := .contains

/-- A condition on the names of the objects of a list. -/
def naming : Condition where
  value := .null
  mode := .arrayContainsObject
  property := some "name"

/-- Two things are looked for in any order; names are compared with all of a list at once. -/
theorem compile_list_asks_any_two :
    ((looking.withValue (.array [.string "ann", .int32 3])).compile "name").outcome =
        .ok (.any [.pattern "name" "ann", .pattern "name" "3"]) ∧
      (∀ valuation,
        (looking.withValue (.array [.int32 3, .string "ann", .int32 3])).Holds valuation "name" ↔
          (looking.withValue (.array [.string "ann", .int32 3])).Holds valuation "name") ∧
      ((naming.withValue (.array [.string "rust", .string "go"])).compile "skills").outcome =
        .ok (.elementOneOf "skills" "name" [.string "rust", .string "go"]) := by
  have alternatives :=
    (compile_list_asks_any "name" looking [.string "ann", .int32 3] (by simp [Bson.IsList])).1 rfl
  have elements :=
    (compile_list_asks_any "skills" naming [.string "rust", .string "go"]
      (by simp [Bson.IsList])).2 (.inr rfl)
  refine ⟨?_, ?_, ?_⟩
  · exact (alternatives.1 _).mpr ⟨_, .cons rfl (.cons rfl .nil), rfl⟩
  · refine (alternatives.2.2.2 _ fun item => ?_).2
    simp only [List.mem_cons, List.not_mem_nil]
    tauto
  · refine (elements.1 _).mpr ⟨[[.string "rust"], [.string "go"]], ?_, ?_⟩
    · have named (name : String) :
          naming.ComparesAny "skills" [.string name]
            (.elementOneOf "skills" "name" [.string name]) :=
        .elementOneOf rfl rfl (by decide)
      exact .cons ⟨_, rfl, named "rust"⟩ (.cons ⟨_, rfl, named "go"⟩ .nil)
    · exact .elementOneOf rfl rfl (by decide)

end Condition

end SearchPipeline
