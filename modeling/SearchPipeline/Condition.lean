import SearchPipeline.Bson.Value
import SearchPipeline.InvalidRequest
import SearchPipeline.MatchMode

/-!
# Conditions

A condition compares a value with one field.  `Condition.ofBson` accepts the
documents that describe one and reports the first thing wrong with any other.
-/

namespace SearchPipeline

/-- One condition on a field. -/
structure Condition where
  value : Bson
  mode : MatchMode
  /-- Whether the condition has to hold by itself, or is one of several of which one has to. -/
  isRequired : Bool := false
  /-- The field of the objects of a list that is compared, for the mode that looks into them. -/
  property : Option String := none

namespace Condition

/-- The value a condition is given: nothing, an empty text and an empty list are none. -/
def givenValue? : Option Bson → Option Bson
  | none => none
  | some .null => none
  | some .undefined => none
  | some (.array []) => none
  | some (.string text) => if text = "" then none else some (.string text)
  | some value => some value

/-- The value of a condition. -/
def valueOf
    (field : String)
    (given : Option Bson) :
    Except InvalidRequest Bson :=
  match givenValue? given with
  | some value => .ok value
  | none => .error (.missingValue field)

/-- The match mode of a condition, given by name. -/
def modeOf
    (field : String) :
    Option Bson → Except InvalidRequest MatchMode
  | none => .error (.missingMatchMode field)
  | some .null => .error (.missingMatchMode field)
  | some (.string name) =>
    match MatchMode.ofName? name with
    | some mode => .ok mode
    | none => .error (.unknownMatchMode field name)
  | some _ => .error (.wrongKind field "matchMode" "a string")

/-- Whether a condition is required, which it has to say. -/
def requiredOf
    (field : String) :
    Option Bson → Except InvalidRequest Bool
  | none => .ok false
  | some .null => .ok false
  | some (.boolean value) => .ok value
  | some _ => .error (.wrongKind field "required" "a boolean")

/-- The property of a condition, if it names one. -/
def propertyOf
    (field : String) :
    Option Bson → Except InvalidRequest (Option String)
  | none => .ok none
  | some .null => .ok none
  | some (.string name) => .ok (some name)
  | some _ => .error (.wrongKind field "property" "a string")

/-- The condition that a value describes, for a field. -/
def ofBson
    (field : String) :
    Bson → Except InvalidRequest Condition
  | .document entries => do
    let value ← valueOf field (Document.get? entries "value")
    let mode ← modeOf field (Document.get? entries "matchMode")
    let isRequired ← requiredOf field (Document.get? entries "required")
    let property ← propertyOf field (Document.get? entries "property")
    return { value, mode, isRequired, property }
  | _ => .error (.conditionNotADocument field)

end Condition

end SearchPipeline
