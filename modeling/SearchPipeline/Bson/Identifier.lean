import SearchPipeline.Bson.Value

/-!
# Identifiers among strings

A string that looks like an identifier and is one is compared as an identifier;
every other value is compared as it stands.
-/

namespace SearchPipeline

/-- Whether a text has the shape of an identifier: hexadecimal digits only, an even number of them. -/
def ObjectId.isShaped (text : String) : Bool :=
  !text.toList.isEmpty && text.toList.length % 2 == 0 && text.toList.all Hex.isDigit

/-- The identifier that a shaped string denotes, or the value itself. -/
def Bson.toIdentifier (value : Bson) : Bson :=
  match value with
  | .string text =>
    if ObjectId.isShaped text then
      match ObjectId.ofText? text with
      | some identifier => .objectId identifier
      | none => value
    else value
  | _ => value

/-- The values of a list, or the one value that is no list, as identifiers where they denote one. -/
def Bson.toIdentifiers : Bson → List Bson
  | .array items => items.map Bson.toIdentifier
  | value => [value.toIdentifier]

end SearchPipeline
