import SearchPipeline.Bson.Reader

/-!
# Quick searches

A quick search looks for one text in several fields.
-/

namespace SearchPipeline

/-- A text to be found in some of the fields. -/
structure QuickSearch where
  value : String
  fields : List String

namespace QuickSearch

/-- The text of a quick search, which must not be empty. -/
def valueOf : Option Bson → Except InvalidRequest String
  | none => .error .emptySearchValue
  | some .null => .error .emptySearchValue
  | some (.string text) => if text = "" then .error .emptySearchValue else .ok text
  | some _ => .error (.wrongKind "searchQuery" "value" "a string")

/-- The strings of a list whose first item has the given place. -/
def fieldsFrom
    (index : Nat) :
    List Bson → Except InvalidRequest (List String)
  | [] => .ok []
  | .string field :: rest => do return field :: (← fieldsFrom (index + 1) rest)
  | _ :: _ => .error (.searchFieldNotAString index)

/-- The fields of a quick search. -/
def fieldsOf : Option Bson → Except InvalidRequest (List String)
  | none => .error .missingSearchFields
  | some .null => .error .missingSearchFields
  | some (.array items) => fieldsFrom 0 items
  | some _ => .error .searchFieldsNotAList

/-- The quick search that a document describes. -/
def ofDocument (document : Document) : Except InvalidRequest QuickSearch := do
  let value ← valueOf (Document.get? document "value")
  let fields ← fieldsOf (Document.get? document "fields")
  return { value, fields }

/-- The quick search that a value describes. -/
def ofBson : Bson → Except InvalidRequest QuickSearch
  | .null => .error .missingQuickSearch
  | .undefined => .error .missingQuickSearch
  | .document entries => ofDocument entries
  | _ => .error (.notADocument "search query")

/-- Reads a quick search. -/
def read (levels : Nat) : Json.Reader QuickSearch := do
  Json.Reader.orInvalid (ofDocument (← Document.read levels))

end QuickSearch

end SearchPipeline
