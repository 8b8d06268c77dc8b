import SearchPipeline.Bson.Value

/-!
# Stages

A stage of a pipeline is a document whose key names what the stage does.  Joins
are the only stages that are looked into: for where they put what they find, and
for the field they read.
-/

namespace SearchPipeline

namespace Document

/-- The string under a key, if a string is there. -/
def getString? (document : Document) (key : String) : Option String :=
  match get? document key with
  | some (.string text) => some text
  | _ => none

/-- The document under a key, if a document is there. -/
def getDocument? (document : Document) (key : String) : Option Document :=
  match get? document key with
  | some (.document entries) => some entries
  | _ => none

end Document

namespace Stage

/-- Keeps the rows that a condition matches. -/
def matching (condition : Document) : Document :=
  [("$match", .document condition)]

/-- Keeps some fields of each row. -/
def project (fields : List String) : Document :=
  [("$project", .document
    (fields.foldl (fun document field => Document.insert document field Bson.one) []))]

/-- Sorts the rows by one field. -/
def sort (field : String) (direction : Int32) : Document :=
  [("$sort", Bson.entry field (.int32 direction))]

/-- The description of a join, for a stage that is one. -/
def lookup? (stage : Document) : Option Document :=
  Document.getDocument? stage "$lookup"

/-- The names under which the joins among some stages put what they find. -/
def joinTargets (stages : List Document) : List String :=
  (stages.filterMap lookup?).filterMap (Document.getString? · "as")

/-- The fields that the joins among some stages read. -/
def joinLocalFields (stages : List Document) : List String :=
  (stages.filterMap lookup?).filterMap (Document.getString? · "localField")

end Stage

end SearchPipeline
