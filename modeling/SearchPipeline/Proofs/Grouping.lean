import Mathlib.Data.List.Basic
import Mathlib.Data.List.Induction

/-!
# Operations that may be grouped in any way

An operation need not be associative everywhere for its grouping not to matter.  Three items
may clash; if no three items of a list do, in the order of the list, any way of grouping the
list gives what one operation after another gives.  For this it takes that a clash of a result
is a clash of one of the two items it is made of.
-/

namespace SearchPipeline

/-- A way to put items together, two at a time, with nothing as an item too. -/
inductive Grouping (α : Type) where
  | nothing
  | one (item : α)
  | both (left right : Grouping α)

namespace Grouping

variable {α : Type}

/-- The items in order. -/
def items : Grouping α → List α
  | nothing => []
  | one item => [item]
  | both left right => left.items ++ right.items

/-- What an operation with a unit makes of the items, grouped in this way. -/
def combine (unit : α) (operation : α → α → α) : Grouping α → α
  | nothing => unit
  | one item => item
  | both left right => operation (left.combine unit operation) (right.combine unit operation)

end Grouping

/-- An operation on valid items that is associative where three of them do not clash. -/
structure AssociativeUnless
    {α : Type}
    (unit : α)
    (operation : α → α → α)
    (valid : α → Prop)
    (clash : α → α → α → Prop) :
    Prop where
  valid_unit : valid unit
  valid_operation : ∀ {left right}, valid left → valid right → valid (operation left right)
  operation_unit : ∀ item, operation item unit = item
  unit_operation : ∀ {item}, valid item → operation unit item = item
  not_clash_first : ∀ second third, ¬ clash unit second third
  not_clash_second : ∀ first third, ¬ clash first unit third
  clash_first : ∀ {left right second third},
    valid left → valid right → clash (operation left right) second third →
      clash left second third ∨ clash right second third
  clash_second : ∀ {first left right third},
    valid left → valid right → clash first (operation left right) third →
      clash first left third ∨ clash first right third
  assoc : ∀ {first second third},
    valid first → valid second → valid third → ¬ clash first second third →
      operation (operation first second) third = operation first (operation second third)

namespace AssociativeUnless

variable
  {α : Type}
  {unit : α}
  {operation : α → α → α}
  {valid : α → Prop}
  {clash : α → α → α → Prop}
  (laws : AssociativeUnless unit operation valid clash)

include laws

theorem valid_foldl
    {items : List α}
    (allValid : ∀ item ∈ items, valid item) :
    valid (items.foldl operation unit) := by
  induction items using List.reverseRecOn with
  | nil => exact laws.valid_unit
  | append_singleton items item induction =>
      rw [List.forall_mem_append, List.forall_mem_singleton] at allValid
      rw [List.foldl_concat]
      exact laws.valid_operation (induction allValid.1) allValid.2

theorem exists_clash_first
    {items : List α}
    (allValid : ∀ item ∈ items, valid item)
    {second third : α}
    (clashes : clash (items.foldl operation unit) second third) :
    ∃ first ∈ items, clash first second third := by
  induction items using List.reverseRecOn with
  | nil => exact (laws.not_clash_first _ _ clashes).elim
  | append_singleton items item induction =>
      rw [List.forall_mem_append, List.forall_mem_singleton] at allValid
      rw [List.foldl_concat] at clashes
      rcases laws.clash_first (laws.valid_foldl allValid.1) allValid.2 clashes with
        earlier | last
      · obtain ⟨first, member, clashes⟩ := induction allValid.1 earlier
        exact ⟨first, List.mem_append_left _ member, clashes⟩
      · exact ⟨item, List.mem_concat_self, last⟩

theorem exists_clash_second
    {items : List α}
    (allValid : ∀ item ∈ items, valid item)
    {first third : α}
    (clashes : clash first (items.foldl operation unit) third) :
    ∃ second ∈ items, clash first second third := by
  induction items using List.reverseRecOn with
  | nil => exact (laws.not_clash_second _ _ clashes).elim
  | append_singleton items item induction =>
      rw [List.forall_mem_append, List.forall_mem_singleton] at allValid
      rw [List.foldl_concat] at clashes
      rcases laws.clash_second (laws.valid_foldl allValid.1) allValid.2 clashes with
        earlier | last
      · obtain ⟨second, member, clashes⟩ := induction allValid.1 earlier
        exact ⟨second, List.mem_append_left _ member, clashes⟩
      · exact ⟨item, List.mem_concat_self, last⟩

/--
Two lists that are put together item by item make what their items make.  The induction is on
the right list from its end, so the last of three items is always a single one.
-/
theorem operation_foldl
    {front back : List α}
    (frontValid : ∀ item ∈ front, valid item)
    (backValid : ∀ item ∈ back, valid item)
    (apart : ∀ first second third,
      [first, second, third].Sublist (front ++ back) → ¬ clash first second third) :
    operation (front.foldl operation unit) (back.foldl operation unit) =
      (front ++ back).foldl operation unit := by
  induction back using List.reverseRecOn with
  | nil =>
      rw [List.append_nil]
      exact laws.operation_unit _
  | append_singleton back item induction =>
      rw [List.forall_mem_append, List.forall_mem_singleton] at backValid
      have earlier := induction backValid.1 fun first second third sublist =>
        apart first second third <|
          sublist.trans ((List.sublist_append_left back [item]).append_left front)
      have associates :
          ¬ clash (front.foldl operation unit) (back.foldl operation unit) item := by
        intro clashes
        obtain ⟨first, firstMember, clashes⟩ := laws.exists_clash_first frontValid clashes
        obtain ⟨second, secondMember, clashes⟩ := laws.exists_clash_second backValid.1 clashes
        refine apart first second item ?_ clashes
        exact (List.singleton_sublist.mpr firstMember).append
          ((List.singleton_sublist.mpr secondMember).append (List.Sublist.refl [item]))
      rw [List.foldl_concat, ← List.append_assoc, List.foldl_concat, ← earlier,
        laws.assoc (laws.valid_foldl frontValid) (laws.valid_foldl backValid.1) backValid.2
          associates]

/-- However items are grouped, they make what they make one after another. -/
theorem combine_eq_foldl
    (grouping : Grouping α)
    (allValid : ∀ item ∈ grouping.items, valid item)
    (apart : ∀ first second third,
      [first, second, third].Sublist grouping.items → ¬ clash first second third) :
    grouping.combine unit operation = grouping.items.foldl operation unit := by
  induction grouping with
  | nothing => rfl
  | one item => exact (laws.unit_operation (allValid item List.mem_cons_self)).symm
  | both left right leftInduction rightInduction =>
      rw [Grouping.items, List.forall_mem_append] at allValid
      rw [Grouping.combine, Grouping.items, ← laws.operation_foldl allValid.1 allValid.2 apart,
        leftInduction allValid.1, rightInduction allValid.2]
      · exact fun first second third sublist =>
          apart first second third (sublist.trans (List.sublist_append_right _ _))
      · exact fun first second third sublist =>
          apart first second third (sublist.trans (List.sublist_append_left _ _))

/-- Two ways of grouping the same items make the same. -/
theorem combine_eq_combine
    {grouping other : Grouping α}
    (same : grouping.items = other.items)
    (allValid : ∀ item ∈ grouping.items, valid item)
    (apart : ∀ first second third,
      [first, second, third].Sublist grouping.items → ¬ clash first second third) :
    grouping.combine unit operation = other.combine unit operation := by
  rw [laws.combine_eq_foldl grouping allValid apart, same]
  rw [same] at allValid apart
  exact (laws.combine_eq_foldl other allValid apart).symm

end AssociativeUnless

end SearchPipeline
