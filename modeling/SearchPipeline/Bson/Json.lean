import SearchPipeline.Bson.Value
import SearchPipeline.Json.Value
import SearchPipeline.Text.Base64

/-!
# Values as JSON

Integers, strings, lists and documents are plain JSON.  Values of other kinds are
objects with a key that names the kind, except that plain binary data is a list of
its bytes and a double that is not finite is `null`.
-/

namespace SearchPipeline

/-- Binary data: a list of bytes for the plain kind, else its text and its kind. -/
def Bson.binaryJson (kind : UInt8) (bytes : List UInt8) : Json :=
  if kind = 0 then .array (bytes.map fun byte => .integer byte.toNat)
  else
    .object [("$binary", .object
      [("base64", .string (String.ofList (Base64.encode bytes))),
        ("subType", .string (String.ofList (Hex.encode [kind])))])]

mutual

/-- The JSON of a value. -/
def Bson.toJson : Bson → Json
  | .double value => Json.ofDouble value
  | .string value => .string value
  | .document entries => .object (Document.toJsonEntries entries)
  | .array items => .array (Bson.toJsonItems items)
  | .binary kind bytes => Bson.binaryJson kind bytes
  | .undefined => .object [("$undefined", .boolean true)]
  | .objectId value => .object [("$oid", .string value.render)]
  | .boolean value => .boolean value
  | .dateTime milliseconds =>
    .object [("$date", .object
      [("$numberLong", .string (String.ofList (Json.integerText milliseconds.toInt)))])]
  | .null => .null
  | .regex pattern options =>
    .object [("$regularExpression", .object
      [("pattern", .string pattern), ("options", .string options)])]
  | .code text => .object [("$code", .string text)]
  | .codeWithScope text scope =>
    .object [("$code", .string text), ("$scope", .object (Document.toJsonEntries scope))]
  | .symbol text => .object [("$symbol", .string text)]
  | .int32 value => .integer value.toInt
  | .timestamp seconds increment =>
    .object [("$timestamp", .object
      [("t", .integer seconds.toNat), ("i", .integer increment.toNat)])]
  | .int64 value => .integer value.toInt
  | .decimal128 value => .object [("$numberDecimal", .string value.render)]
  | .dbPointer collection identifier =>
    .object [("$dbPointer", .object
      [("$ref", .string collection), ("$id", .object [("$oid", .string identifier.render)])])]
  | .minKey => .object [("$minKey", .integer 1)]
  | .maxKey => .object [("$maxKey", .integer 1)]
termination_by structural value => value

/-- The JSON of the items of a list. -/
def Bson.toJsonItems : List Bson → List Json
  | [] => []
  | item :: items => item.toJson :: Bson.toJsonItems items
termination_by structural items => items

/-- The JSON of the entries of a document, in the document's order. -/
def Document.toJsonEntries : List (String × Bson) → List (String × Json)
  | [] => []
  | (key, value) :: entries => (key, value.toJson) :: Document.toJsonEntries entries
termination_by structural entries => entries

end

/-- The JSON of a document. -/
def Document.toJson (document : Document) : Json :=
  .object (Document.toJsonEntries document)

end SearchPipeline
