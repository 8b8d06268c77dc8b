import SearchPipeline.Condition.Expression
import SearchPipeline.Proofs.FirstProblem

/-!
# Values taken one by one

Most modes take the items of a list one by one, and any other value as a list of itself.
They compile if each of these values does, and the first one that does not says why.
-/

namespace SearchPipeline

/-- The values that a value stands for: the items of a list, or the value itself. -/
def Bson.items : Bson → List Bson
  | .array items => items
  | value => [value]

namespace Condition

variable {compile : Bson → Compiled Expression}

theorem outcome_alternatives_eq_error_iff
    (value : Bson)
    (problem : InvalidRequest) :
    (alternatives compile value).outcome = .error problem ↔
      First (fun item problem => (compile item).outcome = .error problem) value.items problem := by
  cases value with
  | array items =>
      rw [alternatives, Compiled.outcome_andThen_eq_error_iff,
        Compiled.outcome_each_eq_error_iff, Bson.items]
      simp
  | _ => simp [alternatives, Bson.items, first_cons_iff, not_first_nil]

/-- Values that compile without warnings do so as alternatives. -/
theorem reversed_alternatives
    (silent : ∀ item, (compile item).reversed = [])
    (value : Bson) :
    (alternatives compile value).reversed = [] := by
  cases value with
  | array items =>
      rw [alternatives, Compiled.reversed_andThen_result]
      induction items with
      | nil => rfl
      | cons item items induction =>
          rw [Compiled.each]
          cases compiled : (compile item).outcome with
          | ok value =>
              rw [Compiled.reversed_andThen_of_ok compiled, Compiled.reversed_andThen_result,
                silent, induction]
              rfl
          | error problem => rw [Compiled.reversed_andThen_of_error compiled, silent]
  | _ => exact silent _

end Condition

end SearchPipeline
