/-!
# Match modes

How one condition compares its value with a field.
-/

namespace SearchPipeline

/-- How a condition compares its value with a field. -/
inductive MatchMode where
  | contains
  | arrayContains
  | arrayContainsObject
  | between
  | equals
  | notEquals
  | greaterThan
  | greaterThanOrEqual
  | lessThan
  | lessThanOrEqual
  | exists
deriving DecidableEq

namespace MatchMode

/-- Every match mode once. -/
def all : List MatchMode :=
  [.contains, .arrayContains, .arrayContainsObject, .between, .equals, .notEquals, .greaterThan,
    .greaterThanOrEqual, .lessThan, .lessThanOrEqual, .exists]

/-- The name a mode has in a search description. -/
def name : MatchMode → String
  | .contains => "contains"
  | .arrayContains => "arrayContains"
  | .arrayContainsObject => "arrayContainsObject"
  | .between => "between"
  | .equals => "equals"
  | .notEquals => "notEquals"
  | .greaterThan => "greaterThan"
  | .greaterThanOrEqual => "greaterThanOrEqual"
  | .lessThan => "lessThan"
  | .lessThanOrEqual => "lessThanOrEqual"
  | .exists => "exists"

/-- The mode with a name; names are told apart by case. -/
def ofName? (name : String) : Option MatchMode :=
  all.find? (·.name = name)

/-- Whether a mode looks into the objects of a list, which only stand there after the joins. -/
def isStructural (mode : MatchMode) : Bool :=
  mode = .arrayContainsObject

@[simp]
theorem ofName?_name
    (mode : MatchMode) :
    ofName? mode.name = some mode := by
  cases mode <;> decide

end MatchMode

end SearchPipeline
