import SearchPipeline.Bson.Value

/-!
# Match expressions

Conditions compile to an expression tree, and the tree to the document of a
match.  A group of no expressions is the document that every row matches.
-/

namespace SearchPipeline

/-- An operator that compares a field with one value. -/
inductive Comparison where
  | notEqual
  | greater
  | greaterOrEqual
  | less
  | lessOrEqual
  | present
deriving DecidableEq

/-- The key of an operator. -/
def Comparison.key : Comparison → String
  | .notEqual => "$ne"
  | .greater => "$gt"
  | .greaterOrEqual => "$gte"
  | .less => "$lt"
  | .lessOrEqual => "$lte"
  | .present => "$exists"

/-- A condition on rows. -/
inductive Expression where
  | equal (field : String) (value : Bson)
  | compare (field : String) (operator : Comparison) (value : Bson)
  /-- The field holds a match of a pattern, in any case of letters. -/
  | pattern (field text : String)
  /-- The field lies between two bounds, both included. -/
  | range (field : String) (lower upper : Bson)
  | oneOf (field : String) (values : List Bson)
  /-- An object of the field's list has one of the values as a property. -/
  | elementOneOf (field property : String) (values : List Bson)
  | all (members : List Expression)
  | any (members : List Expression)
  /-- A condition that the client gives as a document. -/
  | given (condition : Document)

namespace Expression

mutual

/-- The document that matches the rows for which an expression holds. -/
def toDocument : Expression → Document
  | .equal field value => [(field, value)]
  | .compare field operator value => [(field, Bson.entry operator.key value)]
  | .pattern field text =>
    [(field, .document [("$regex", .string text), ("$options", .string "i")])]
  | .range field lower upper => [(field, .document [("$gte", lower), ("$lte", upper)])]
  | .oneOf field values => [(field, Bson.entry "$in" (.array values))]
  | .elementOneOf field property values =>
    [(field, Bson.entry "$elemMatch" (Bson.entry property (Bson.entry "$in" (.array values))))]
  | .all [] => []
  | .all (member :: members) => [("$and", .array (toDocuments (member :: members)))]
  | .any [] => []
  | .any (member :: members) => [("$or", .array (toDocuments (member :: members)))]
  | .given condition => condition
termination_by structural expression => expression

/-- The documents of the members of a group, in order. -/
def toDocuments : List Expression → List Bson
  | [] => []
  | member :: members => .document (toDocument member) :: toDocuments members
termination_by structural members => members

end

@[simp]
theorem toDocuments_eq_map
    (members : List Expression) :
    toDocuments members = members.map fun member => .document member.toDocument := by
  induction members with
  | nil => simp [toDocuments]
  | cons member members ih => simp [toDocuments, ih]

end Expression

end SearchPipeline
