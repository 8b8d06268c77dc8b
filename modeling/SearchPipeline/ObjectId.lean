import SearchPipeline.Text.Hex

/-!
# Object identifiers

Twelve bytes, written as twenty-four hexadecimal digits.
-/

namespace SearchPipeline

/-- A database identifier of twelve bytes. -/
structure ObjectId where
  bytes : List UInt8
  length_eq : bytes.length = 12
deriving DecidableEq

namespace ObjectId

/-- Reads an identifier from exactly twenty-four hexadecimal digits, of either case. -/
def ofText? (text : String) : Option ObjectId :=
  match Hex.decode? text.toList with
  | some bytes => if length_eq : bytes.length = 12 then some ⟨bytes, length_eq⟩ else none
  | none => none

/-- The identifier's lower-case digits. -/
def render (identifier : ObjectId) : String :=
  String.ofList (Hex.encode identifier.bytes)

end ObjectId

end SearchPipeline
