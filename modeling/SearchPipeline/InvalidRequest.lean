/-!
# Invalid requests

Every way in which a search description can be wrong, and the text that tells the
client about it.  The text names the field concerned when there is one.
-/

namespace SearchPipeline

/-- What is wrong with a search description. -/
inductive InvalidRequest where
  /-- Conditions are asked for and none are given. -/
  | missingFilter
  /-- A free-text search is asked for and none is given. -/
  | missingQuickSearch
  /-- Something other than a document stands where one is needed. -/
  | notADocument (what : String)
  | conditionsNotAList (field : String)
  | conditionNotADocument (field : String)
  | missingValue (field : String)
  | missingMatchMode (field : String)
  | unknownMatchMode (field mode : String)
  /-- An entry of a condition has a value of the wrong kind. -/
  | wrongKind (field key expected : String)
  | rangeNotAList (field : String)
  | rangeNotTwoValues (field : String) (count : Nat)
  | missingProperty (field : String)
  | unsupportedValue (field mode : String)
  | emptySearchValue
  | missingSearchFields
  | searchFieldsNotAList
  | searchFieldNotAString (index : Nat)
deriving DecidableEq

namespace InvalidRequest

/-- What the client is told, after the words that all such texts begin with. -/
def detail : InvalidRequest → String
  | .missingFilter => "query is required"
  | .missingQuickSearch => "search query is required"
  | .notADocument what => what ++ " must be a document"
  | .conditionsNotAList field => "conditions for field `" ++ field ++ "` must be a list"
  | .conditionNotADocument field =>
    "each condition for field `" ++ field ++ "` must be a document"
  | .missingValue field => "condition for field `" ++ field ++ "` is missing a value"
  | .missingMatchMode field => "condition for field `" ++ field ++ "` is missing a match mode"
  | .unknownMatchMode field mode =>
    "unknown match mode `" ++ mode ++ "` for field `" ++ field ++ "`"
  | .wrongKind field key expected =>
    "`" ++ key ++ "` for field `" ++ field ++ "` must be " ++ expected
  | .rangeNotAList field => "`between` for field `" ++ field ++ "` requires a list value"
  | .rangeNotTwoValues field count =>
    "`between` for field `" ++ field ++ "` requires exactly 2 values, got " ++ toString count
  | .missingProperty field => "`arrayContainsObject` for field `" ++ field ++ "` requires a property"
  | .unsupportedValue field mode =>
    "unsupported value for `" ++ mode ++ "` on field `" ++ field ++ "`"
  | .emptySearchValue => "search value must not be empty"
  | .missingSearchFields => "search fields are required"
  | .searchFieldsNotAList => "search fields must be a list"
  | .searchFieldNotAString index => "search field at index " ++ toString index ++ " must be a string"

/-- What the client is told. -/
def message (problem : InvalidRequest) : String :=
  "invalid request: " ++ problem.detail

end InvalidRequest

end SearchPipeline
