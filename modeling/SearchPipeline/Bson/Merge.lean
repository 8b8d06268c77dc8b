import SearchPipeline.Bson.Value

/-!
# Merging documents

Two documents merge key by key: nested documents merge in turn, lists are put
end to end, and in every other case the right value stands.  Keys keep the places
they have on the left; new ones follow in the order of the right.
-/

namespace SearchPipeline

mutual

/-- Merges a document into one that stands to its left. -/
def Document.merge (left : Document) : Document → Document
  | [] => left
  | (key, value) :: rest =>
    Document.merge (Document.insert left key (Bson.mergeInto (Document.get? left key) value)) rest
termination_by structural right => right

/-- The value that stands for a left value, if there is one, and a right value. -/
def Bson.mergeInto : Option Bson → Bson → Bson
  | some (.document left), .document right => .document (Document.merge left right)
  | some (.array left), .array right => .array (left ++ right)
  | _, right => right
termination_by structural _ right => right

end

/-- Merges documents of which each may be absent. -/
def Document.mergeOptional : Option Document → Option Document → Option Document
  | none, right => right
  | some left, none => some left
  | some left, some right => some (Document.merge left right)

end SearchPipeline
