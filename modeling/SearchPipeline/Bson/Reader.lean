import SearchPipeline.Bson.Value
import SearchPipeline.Instant
import SearchPipeline.Json.Reader
import SearchPipeline.Text.Base64
import SearchPipeline.Uuid

/-!
# Reading values

Plain JSON gives strings, truth values, numbers, lists and documents.  A typed
value is an object with a key that names its kind: entries are read in order, and
as soon as such a key is met the object is that value and has to end.  The parts
of a typed value stand in a record one level deeper.
-/

namespace SearchPipeline

open Json Json.Reader

namespace Bson

/-- The value of a plain number, in the narrowest kind of those it may have. -/
def ofNumber? : Number → Option Bson
  | .natural value =>
    if value < 1 <<< 31 then some (.int32 (Int32.ofNat value))
    else if value < 1 <<< 63 then some (.int64 (Int64.ofNat value))
    else none
  | .negative value => some (.int64 (Int64.ofInt value))
  | .double value => some (.double value)

/-- An integer in a text of its own: digits after an optional sign, within a range. -/
def integer? (bits : Nat) (text : String) : Option Int :=
  let (negative, digits) := Binary64.splitSign text.toList
  if digits ≠ [] ∧ digits.all Char.isDigit then
    let size : Int := Binary64.digitsValue digits
    let value := if negative then -size else size
    let bound : Nat := 1 <<< (bits - 1)
    if -bound ≤ value ∧ value < bound then some value else none
  else none

/-- Reads an integer of sixty-four bits from a string. -/
def readLong : Reader Int64 := do
  return Int64.ofInt (← orMalformed (integer? 64 (← readString)))

/-- Reads a natural number of thirty-two bits. -/
def readWord : Reader UInt32 := do
  let value ← readNatural
  if value.toNat < UInt32.size then return value.toUInt32 else malformed

/-- Reads the options of a regular expression: each letter, in alphabetical order. -/
def sortOptions (options : String) : String :=
  String.ofList (options.toList.mergeSort (· ≤ ·))

/-- Whether a text can be part of a regular expression. -/
def isPatternText (text : String) : Bool :=
  !text.toList.contains '\x00'

/-- Reads the two parts of a regular expression. -/
def readRegex (levels : Nat) : Reader Bson := do
  let (pattern, options) ← enter levels fun _ => record false
    [required "pattern" fun (_, options) => return (← readString, options),
      required "options" fun (pattern, _) => return (pattern, ← readString)] ("", "")
  if isPatternText pattern ∧ isPatternText options then
    return .regex pattern (sortOptions options)
  else malformed

/-- Reads the two parts of binary data. -/
def readBinary (levels : Nat) : Reader Bson := do
  let (bytes, kind) ← enter levels fun _ => record false
    [required "base64" fun (_, kind) => return (← readString, kind),
      required "subType" fun (bytes, _) => return (bytes, ← readString)] ("", "")
  let bytes ← orMalformed (Base64.decode? bytes.toList)
  match Hex.decode? kind.toList with
  | some [kind] => return .binary kind bytes
  | _ => malformed

/-- Reads a universally unique identifier, which is binary data of the fourth kind. -/
def readUuid : Reader Bson := do
  return .binary 4 (← orMalformed (Uuid.ofText? (← readString)))

/-- Reads the two parts of a pointer: a collection, and an identifier in a record of its own. -/
def readDbPointer (levels : Nat) : Reader Bson := do
  let (collection, identifier) ← enter levels fun levels =>
    let readIdentifier : Reader String :=
      enter levels fun _ => record false [required "$oid" fun _ => readString] ""
    record false
      [required "$ref" fun (_, identifier) => return (← readString, identifier),
        required "$id" fun (collection, _) => return (collection, ← readIdentifier)] ("", "")
  return .dbPointer collection (← orMalformed (ObjectId.ofText? identifier))

/-- Reads the two parts of a timestamp. -/
def readTimestamp (levels : Nat) : Reader Bson := do
  let (seconds, increment) ← enter levels fun _ => record false
    [required "t" fun (_, increment) => return (← readWord, increment),
      required "i" fun (seconds, _) => return (seconds, ← readWord)] (0, 0)
  return .timestamp seconds increment

/-- Reads an instant: a text, a plain integer, or an integer in a record of its own. -/
def readDate (levels : Nat) : Reader Bson := do
  match ← peek? with
  | some (.string _) =>
    let milliseconds ← orMalformed (Instant.ofText? (← readString))
    return .dateTime (Int64.ofInt milliseconds)
  | some (.number _) =>
    match ← readNumber with
    | .natural value =>
      if value < 1 <<< 63 then return .dateTime (Int64.ofNat value) else malformed
    | .negative value => return .dateTime (Int64.ofInt value)
    | .double _ => malformed
  | _ =>
    return .dateTime
      (← enter levels fun _ => record false [required "$numberLong" fun _ => readLong] 0)

/-- Reads the number one. -/
def readOne : Reader Unit := do
  match ← readNumber with
  | .natural 1 => pure ()
  | _ => malformed

/-- Reads a double from a string. -/
def readDouble : Reader Bson := do
  return .double (← orMalformed (Binary64.ofText? (← readString)))

/-- Reads a document, given how values are read. -/
def documentOf (value : Reader Bson) : Reader Document := do
  match ← value with
  | .document entries => pure entries
  | _ => malformed

/-- Reads what follows the text of code: its scope, or nothing. -/
def readScopeAfter (value : Reader Bson) (text : String) : Reader Bson := do
  if (← peek?) = some .comma then
    let _ ← take
    if (← readString) = "$scope" then
      expect .colon
      return .codeWithScope text (← documentOf value)
    else malformed
  else return .code text

/-- Reads what follows the scope of code: its text. -/
def readCodeAfter (scope : Document) : Reader Bson := do
  expect .comma
  if (← readString) = "$code" then
    expect .colon
    return .codeWithScope (← readString) scope
  else malformed

/--
How the rest of a typed value is read after the key that names its kind, given how
many levels are left within it and how values are read there.
-/
def typed? (levels : Nat) (value : Reader Bson) (key : String) : Option (Reader Bson) :=
  match key with
  | "$oid" => some do return .objectId (← orMalformed (ObjectId.ofText? (← readString)))
  | "$symbol" => some do return .symbol (← readString)
  | "$numberInt" => some do
    return .int32 (Int32.ofInt (← orMalformed (integer? 32 (← readString))))
  | "$numberLong" => some do return .int64 (← readLong)
  | "$numberDouble" => some readDouble
  | "$numberDecimal" => some do
    return .decimal128 (← orMalformed (Decimal128.ofText? (← readString)))
  | "$numberDecimalBytes" => some do
    return .decimal128 (← orMalformed (Decimal128.ofBytes? (← readBytes levels)))
  | "$binary" => some (readBinary levels)
  | "$uuid" => some readUuid
  | "$code" => some do readScopeAfter value (← readString)
  | "$scope" => some do readCodeAfter (← documentOf value)
  | "$timestamp" => some (readTimestamp levels)
  | "$regularExpression" => some (readRegex levels)
  | "$dbPointer" => some (readDbPointer levels)
  | "$date" => some (readDate levels)
  | "$minKey" => some do
    readOne
    return .minKey
  | "$maxKey" => some do
    readOne
    return .maxKey
  | "$undefined" => some do if ← readBoolean then return .undefined else malformed
  | _ => none

/-- Reads an object: a typed value as soon as a key names its kind, else a document. -/
def readObject (levels : Nat) (value : Reader Bson) : Reader Bson :=
  let entry (document : Document) (key : String) : Reader (Progress Document Bson) :=
    match typed? levels value key with
    | some reader => do return .settled (← reader)
    | none => do return .more (Document.insert document key (← value))
  entries entry (fun document => return .document document) []

/-- Reads a value that is neither list nor object. -/
def readScalar : Reader Bson := do
  match ← take with
  | .null => return .null
  | .boolean value => return .boolean value
  | .string units => return .string (← orMalformed (TextUnit.text? units))
  | .number text => orMalformed (text.value?.bind ofNumber?)
  | _ => malformed

/-- Reads a value in which lists and objects are nested to so many levels. -/
def read : (levels : Nat) → Reader Bson
  | 0 => readScalar
  | levels + 1 => do
    match ← peek? with
    | some .openArray => return .array (← list (read levels))
    | some .openObject => readObject levels (read levels)
    | _ => readScalar

/-- The value that a text holds. -/
def ofText (text : String) : Except Refusal Bson :=
  run (read maxLevels) text

end Bson

namespace Document

/-- Reads a document in which lists and objects are nested to so many levels. -/
def read (levels : Nat) : Reader Document :=
  Bson.documentOf (Bson.read levels)

/-- The document that a text holds. -/
def ofText (text : String) : Except Refusal Document :=
  run (read maxLevels) text

end Document

end SearchPipeline
