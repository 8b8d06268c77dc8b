import SearchPipeline.Bson.Identifier
import SearchPipeline.Compiled
import SearchPipeline.Condition
import SearchPipeline.Expression

/-!
# The expression of a condition

A list of values stands for any one of them, except where the mode takes the list
as a whole.  Bounds that look reversed are reported and compiled as they stand.
-/

namespace SearchPipeline

namespace Bson

/-- The double that a number is compared as. -/
def toDouble? : Bson → Option Binary64
  | .int32 value => some (.ofInt value.toInt)
  | .int64 value => some (.ofInt value.toInt)
  | .double value => some value
  | _ => none

/-- Whether a lower bound is above its upper bound: for two numbers, instants or strings. -/
def looksReversed (lower upper : Bson) : Bool :=
  match lower.toDouble?, upper.toDouble? with
  | some lower, some upper => upper.lt lower
  | _, _ =>
    match lower, upper with
    | .dateTime lower, .dateTime upper => upper < lower
    | .string lower, .string upper => upper < lower
    | _, _ => false

/--
Doubles are looked for as they are written with the fewest digits that read back,
of two equally near ones the upper, always without an exponent.
-/
def patternLayout : Binary64.Layout where
  tie := .up
  isPositional _ := true
  keepsPoint := false
  nan := "NaN"
  infinity := "inf"

/-- The text of a double as a pattern: its point stands for a point only. -/
def doublePattern (value : Binary64) : String :=
  String.ofList <| (value.render patternLayout).toList.flatMap fun char =>
    if char = '.' then ['\\', '.'] else [char]

/-- The text of an integer. -/
def integerPattern (value : Int) : String :=
  String.ofList ((if value < 0 then ['-'] else []) ++ Nat.toDigits 10 value.natAbs)

/-- The pattern that a text or a number is looked for with. -/
def toPattern? : Bson → Option String
  | .string text => some text
  | .int32 value => some (integerPattern value.toInt)
  | .int64 value => some (integerPattern value.toInt)
  | .double value => some (doublePattern value)
  | _ => none

end Bson

namespace Condition

open Compiled

/-- Compiles a single value, or each value of a list into alternatives. -/
def alternatives
    (compile : Bson → Compiled Expression) :
    Bson → Compiled Expression
  | .array items => (each compile items).andThen fun members => result (.any members)
  | value => compile value

/-- Compares a field with a value, or with any of a list. -/
def comparison
    (field : String)
    (operator : Comparison)
    (value : Bson) :
    Compiled Expression :=
  alternatives (fun value => result (.compare field operator value)) value

/-- Looks for a value in a field. -/
def pattern
    (field : String)
    (value : Bson) :
    Compiled Expression :=
  match value.toPattern? with
  | some text => result (.pattern field text)
  | none => problem (.unsupportedValue field MatchMode.contains.name)

/-- Compares a field with the two bounds of a list. -/
def range
    (field : String) :
    Bson → Compiled Expression
  | .array [lower, upper] =>
    if lower.looksReversed upper then warned field (.range field lower upper)
    else result (.range field lower upper)
  | .array items => problem (.rangeNotTwoValues field items.length)
  | _ => problem (.rangeNotAList field)

/-- Looks into the objects of a field's list, which takes the name of a property. -/
def elements
    (field : String)
    (property : Option String)
    (value : Bson) :
    Compiled Expression :=
  match property with
  | none => problem (.missingProperty field)
  | some property =>
    if property = "" then problem (.missingProperty field)
    else result (.elementOneOf field property value.toIdentifiers)

/-- The expression of a condition on a field. -/
def compile
    (field : String)
    (condition : Condition) :
    Compiled Expression :=
  match condition.mode with
  | .contains => alternatives (pattern field) condition.value
  | .equals =>
    alternatives (fun value => result (.equal field value.toIdentifier)) condition.value
  | .notEquals => comparison field .notEqual condition.value
  | .greaterThan => comparison field .greater condition.value
  | .greaterThanOrEqual => comparison field .greaterOrEqual condition.value
  | .lessThan => comparison field .less condition.value
  | .lessThanOrEqual => comparison field .lessOrEqual condition.value
  | .exists => comparison field .present condition.value
  | .between => range field condition.value
  | .arrayContains => result (.oneOf field condition.value.toIdentifiers)
  | .arrayContainsObject => elements field condition.property condition.value

end Condition

end SearchPipeline
