import SearchPipeline.Compiled
import Mathlib.Data.List.Forall2

/-!
# Results of compilations

A compilation in several steps gives a result exactly when every step gives one.
These laws say so for one step after another, and for a step at each item of a
list; they leave the warnings aside.
-/

namespace SearchPipeline

/-- A second step that may fail gives its result after a first one that gives what it needs. -/
theorem bind_eq_ok_iff
    {ε α β : Type}
    (first : Except ε α)
    (next : α → Except ε β)
    (value : β) :
    (first >>= next) = .ok value ↔ ∃ middle, first = .ok middle ∧ next middle = .ok value := by
  cases first with
  | ok middle => simp [bind, Except.bind]
  | error cause => simp [bind, Except.bind]

namespace Compiled

variable {α β : Type}

@[simp]
theorem outcome_result (value : α) :
    (result value).outcome = .ok value :=
  rfl

/-- A second step gives its result after a first one that gives what it needs. -/
theorem outcome_andThen_eq_ok_iff
    (first : Compiled α)
    (next : α → Compiled β)
    (value : β) :
    (first.andThen next).outcome = .ok value ↔
      ∃ middle, first.outcome = .ok middle ∧ (next middle).outcome = .ok value := by
  cases outcome : first.outcome with
  | ok middle => simp [andThen, outcome]
  | error cause => simp [andThen, outcome]

/-- A second step that only makes something of the first one's result cannot fail. -/
theorem outcome_andThen_result_eq_ok_iff
    (first : Compiled α)
    (make : α → β)
    (value : β) :
    (first.andThen fun middle => result (make middle)).outcome = .ok value ↔
      ∃ middle, first.outcome = .ok middle ∧ make middle = value := by
  rw [outcome_andThen_eq_ok_iff]
  simp only [outcome_result, Except.ok.injEq]

/-- A list compiles when each of its items does, to the items' results in order. -/
theorem outcome_each_eq_ok_iff
    (compile : α → Compiled β)
    (items : List α)
    (values : List β) :
    (each compile items).outcome = .ok values ↔
      List.Forall₂ (fun item value => (compile item).outcome = .ok value) items values := by
  induction items generalizing values with
  | nil =>
      simp [each, eq_comm]
  | cons item rest induction =>
      rw [each, outcome_andThen_eq_ok_iff, List.forall₂_cons_left_iff]
      constructor
      · rintro ⟨value, first, following⟩
        rw [outcome_andThen_result_eq_ok_iff] at following
        rcases following with ⟨others, compiled, listed⟩
        exact ⟨value, others, first, (induction others).mp compiled, listed.symm⟩
      · rintro ⟨value, others, first, compiled, rfl⟩
        refine ⟨value, first, ?_⟩
        rw [outcome_andThen_result_eq_ok_iff]
        exact ⟨others, (induction others).mpr compiled, rfl⟩

theorem exists_outcome_of_each_eq_ok
    {compile : α → Compiled β}
    {items : List α}
    {values : List β}
    (compiled : (each compile items).outcome = .ok values) :
    ∀ item ∈ items, ∃ value, (compile item).outcome = .ok value := by
  rw [outcome_each_eq_ok_iff] at compiled
  induction compiled with
  | nil => simp
  | @cons item value items values first rest induction =>
      intro wanted member
      rcases List.mem_cons.mp member with rfl | member
      · exact ⟨value, first⟩
      · exact induction wanted member

theorem exists_outcome_each_of_forall
    {compile : α → Compiled β}
    {items : List α}
    (compiles : ∀ item ∈ items, ∃ value, (compile item).outcome = .ok value) :
    ∃ values, (each compile items).outcome = .ok values := by
  induction items with
  | nil => exact ⟨[], rfl⟩
  | cons item rest induction =>
      obtain ⟨value, first⟩ := compiles item List.mem_cons_self
      obtain ⟨values, following⟩ :=
        induction fun other member => compiles other (List.mem_cons_of_mem item member)
      refine ⟨value :: values, ?_⟩
      rw [each, outcome_andThen_eq_ok_iff]
      refine ⟨value, first, ?_⟩
      rw [outcome_andThen_result_eq_ok_iff]
      exact ⟨values, following, rfl⟩

end Compiled

end SearchPipeline
