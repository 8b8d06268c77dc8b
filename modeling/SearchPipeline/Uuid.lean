import SearchPipeline.Text.Hex

/-!
# Universally unique identifiers

Sixteen bytes, written as thirty-two hexadecimal digits in one run, or in five
groups with hyphens between them.  The groups may stand in braces or after the
words `urn:uuid:`.
-/

namespace SearchPipeline.Uuid

/-- The lengths of the groups of digits. -/
def groupLengths : List Nat := [8, 4, 4, 4, 12]

/-- The digits of groups of some lengths, with hyphens between the groups. -/
def joinGroups? : (lengths : List Nat) → List Char → Option (List Char)
  | [], _ => none
  | [length], text => if text.length = length then some text else none
  | length :: lengths, text =>
    match text.drop length with
    | '-' :: rest => (joinGroups? lengths rest).map (text.take length ++ ·)
    | _ => none

/-- A text without the braces around it or the words before it. -/
def unwrap (text : List Char) : List Char :=
  match text with
  | '\x7b' :: rest => if rest.getLast? = some '\x7d' then rest.dropLast else text
  | 'u' :: 'r' :: 'n' :: ':' :: 'u' :: 'u' :: 'i' :: 'd' :: ':' :: rest => rest
  | _ => text

/-- The sixteen bytes that a text names; digits may have either case. -/
def ofText? (text : String) : Option (List UInt8) :=
  let written := text.toList
  if written.length = 32 then Hex.decode? written
  else (joinGroups? groupLengths (unwrap written)).bind Hex.decode?

end SearchPipeline.Uuid
