import SearchPipeline.Proofs.Faults
import SearchPipeline.Proofs.RoundedIntegers

/-!
# Warnings about reversed bounds

The bounds of a range are compared as doubles.  For two integers the warning is never a false
alarm, and it is missing exactly where the bounds are reversed and are the same double: never
for integers of fifty-three bits or for ones more than 1024 apart, but for neighbours such as
`9007199254740993` and `9007199254740992`.
-/

namespace SearchPipeline

/-- The integer that a value is. -/
def Bson.toInteger? : Bson → Option Int
  | .int32 value => some value.toInt
  | .int64 value => some value.toInt
  | _ => none

namespace Bson

section ToInteger

variable {value : Bson}
  {integer : Int}
  (whole : value.toInteger? = some integer)

include whole

theorem toDouble?_of_toInteger? : value.toDouble? = some (.ofInt integer) := by
  unfold toInteger? at whole
  split at whole
  · rw [toDouble?, Option.some.inj whole]
  · rw [toDouble?, Option.some.inj whole]
  · contradiction

theorem natAbs_le_of_toInteger? : integer.natAbs ≤ 1 <<< 63 := by
  unfold toInteger? at whole
  split at whole
  · rename_i value
    have low := value.le_toInt
    have high := value.toInt_lt
    rw [Option.some.inj whole] at low high
    omega
  · rename_i value
    have low := value.le_toInt
    have high := value.toInt_lt
    rw [Option.some.inj whole] at low high
    omega
  · contradiction

end ToInteger

section Integers

variable {lower upper : Bson}
  {low high : Int}
  (lowerWhole : lower.toInteger? = some low)
  (upperWhole : upper.toInteger? = some high)

include lowerWhole upperWhole

theorem looksReversed_integers :
    lower.looksReversed upper = (Binary64.ofInt high).lt (Binary64.ofInt low) := by
  simp only [looksReversed, toDouble?_of_toInteger? lowerWhole,
    toDouble?_of_toInteger? upperWhole]

/-- Integers look reversed exactly if they are, unless both are the same double. -/
theorem looksReversed_integers_iff :
    lower.looksReversed upper = true ↔
      high < low ∧ Binary64.ofInt high ≠ Binary64.ofInt low := by
  rw [looksReversed_integers lowerWhole upperWhole]
  exact Binary64.lt_ofInt_iff (natAbs_le_of_toInteger? upperWhole)
    (natAbs_le_of_toInteger? lowerWhole)

end Integers

end Bson

namespace Condition

/-- A range compiles as it stands, whether or not its bounds look reversed. -/
theorem outcome_compile_range
    (field : String)
    {condition : Condition}
    (mode : condition.mode = .between)
    {lower upper : Bson}
    (bounds : condition.value = .array [lower, upper]) :
    (condition.compile field).outcome = .ok (.range field lower upper) := by
  simp only [compile, mode, bounds, range]
  split <;> rfl

theorem reversed_compile_range
    (field : String)
    {condition : Condition}
    (mode : condition.mode = .between)
    {lower upper : Bson}
    (bounds : condition.value = .array [lower, upper]) :
    (condition.compile field).reversed = if lower.looksReversed upper then [field] else [] := by
  simp [reversed_compile, hasReversedBounds, mode, bounds, Bson.areReversedBounds]

/--
A range between two integers compiles as it stands, and warns of its field exactly if the bounds
are reversed and are different doubles.  So it warns exactly if the bounds are reversed, if and
only if they are in order or are different doubles.  Reversed bounds are different doubles if
they have at most fifty-three bits or are more than 1024 apart.
-/
theorem compile_warns_of_reversed_iff
    (field : String)
    (condition : Condition)
    (mode : condition.mode = .between)
    {lower upper : Bson}
    (bounds : condition.value = .array [lower, upper])
    {low high : Int}
    (lowerWhole : lower.toInteger? = some low)
    (upperWhole : upper.toInteger? = some high) :
    (condition.compile field).outcome = .ok (.range field lower upper) ∧
      (condition.compile field).reversed =
        (if high < low ∧ Binary64.ofInt high ≠ Binary64.ofInt low then [field] else []) ∧
      (((condition.compile field).reversed = [field] ↔ high < low) ↔
        low ≤ high ∨ Binary64.ofInt high ≠ Binary64.ofInt low) ∧
      (low.natAbs ≤ 1 <<< 53 → high.natAbs ≤ 1 <<< 53 →
        ((condition.compile field).reversed = [field] ↔ high < low)) ∧
      (high + 1024 < low → (condition.compile field).reversed = [field]) := by
  have looks := Bson.looksReversed_integers_iff lowerWhole upperWhole
  have reported := reversed_compile_range field mode bounds
  simp only [looks] at reported
  have warned :
      (condition.compile field).reversed = [field] ↔
        high < low ∧ Binary64.ofInt high ≠ Binary64.ofInt low := by
    rw [reported, ite_eq_left_iff, imp_iff_not (List.cons_ne_nil _ _).symm, not_not]
  refine ⟨outcome_compile_range field mode bounds, reported, ?_, ?_, ?_⟩
  · rw [warned]
    by_cases reversed : high < low
    · simp [reversed, Int.not_le.mpr reversed]
    · simp [reversed, Int.not_lt.mp reversed]
  · intro lowSmall highSmall
    rw [warned, and_iff_left_iff_imp]
    exact fun reversed => Binary64.ofInt_ne_of_le (Int.ne_of_lt reversed) highSmall lowSmall
  · intro apart
    rw [warned]
    exact ⟨by omega, Binary64.ofInt_ne_of_apart apart (Bson.natAbs_le_of_toInteger? upperWhole)
      (Bson.natAbs_le_of_toInteger? lowerWhole)⟩

/-- A condition that a field lies between two integers. -/
def betweenIntegers (lower upper : Int64) : Condition where
  value := .array [.int64 lower, .int64 upper]
  mode := .between

/-- Behind the doubles that hold every integer, bounds that are the next doubles are told apart. -/
theorem compile_warns_of_reversed_doubles :
    ((betweenIntegers 9007199254740994 9007199254740992).compile "count").outcome =
        .ok (.range "count" (.int64 9007199254740994) (.int64 9007199254740992)) ∧
      ((betweenIntegers 9007199254740994 9007199254740992).compile "count").reversed =
        ["count"] := by
  have different : Binary64.ofInt 9007199254740992 ≠ Binary64.ofInt 9007199254740994 := by
    decide +kernel
  have lowerWhole : Bson.toInteger? (.int64 9007199254740994) = some 9007199254740994 := rfl
  have upperWhole : Bson.toInteger? (.int64 9007199254740992) = some 9007199254740992 := rfl
  have warns :=
    compile_warns_of_reversed_iff "count" (betweenIntegers 9007199254740994 9007199254740992)
      rfl rfl lowerWhole upperWhole
  exact ⟨warns.1, (warns.2.2.1.mpr (.inr different)).mpr (by decide)⟩

/-- Bounds that are reversed by one are the same double, and nothing warns of them. -/
theorem reversed_neighbours_unreported :
    ((betweenIntegers 9007199254740993 9007199254740992).compile "count").reversed = [] ∧
      (9007199254740992 : Int64) < 9007199254740993 := by
  decide +kernel

end Condition

end SearchPipeline
