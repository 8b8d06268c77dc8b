import SearchPipeline.InvalidRequest

/-!
# The outcome of compiling

Compiling gives a result or the first problem.  Either way it tells of which
fields the bounds looked reversed before it ended, one entry for each warning.
-/

namespace SearchPipeline

/-- A result or the first problem, and the fields warned about on the way. -/
structure Compiled (α : Type) where
  reversed : List String
  outcome : Except InvalidRequest α

namespace Compiled

/-- A result without warnings. -/
def result {α : Type} (value : α) : Compiled α :=
  ⟨[], .ok value⟩

/-- A problem without warnings before it. -/
def problem {α : Type} (problem : InvalidRequest) : Compiled α :=
  ⟨[], .error problem⟩

/-- A result after a warning about a field. -/
def warned {α : Type} (field : String) (value : α) : Compiled α :=
  ⟨[field], .ok value⟩

/-- Goes on with a result; a problem ends the compilation. -/
def andThen
    {α β : Type}
    (first : Compiled α)
    (next : α → Compiled β) :
    Compiled β :=
  match first.outcome with
  | .ok value => ⟨first.reversed ++ (next value).reversed, (next value).outcome⟩
  | .error problem => ⟨first.reversed, .error problem⟩

@[ext]
theorem ext
    {α : Type}
    {left right : Compiled α}
    (sameWarnings : left.reversed = right.reversed)
    (sameOutcome : left.outcome = right.outcome) :
    left = right := by
  cases left
  cases right
  simp_all

@[simp]
theorem result_andThen
    {α β : Type}
    (value : α)
    (next : α → Compiled β) :
    (result value).andThen next = next value := by
  simp [andThen, result]

@[simp]
theorem andThen_result
    {α : Type}
    (first : Compiled α) :
    first.andThen result = first := by
  ext <;> cases outcome : first.outcome <;> simp [andThen, result, outcome]

theorem andThen_assoc
    {α β γ : Type}
    (first : Compiled α)
    (next : α → Compiled β)
    (last : β → Compiled γ) :
    (first.andThen next).andThen last = first.andThen fun value => (next value).andThen last := by
  cases outcome : first.outcome with
  | error problem => simp [andThen, outcome]
  | ok value => cases inner : (next value).outcome <;> simp [andThen, outcome, inner]

/-- Compiles every item in order; the first problem ends the compilation. -/
def each
    {α β : Type}
    (compile : α → Compiled β) :
    List α → Compiled (List β)
  | [] => result []
  | item :: rest =>
    (compile item).andThen fun value =>
      (each compile rest).andThen fun values => result (value :: values)

end Compiled

end SearchPipeline
