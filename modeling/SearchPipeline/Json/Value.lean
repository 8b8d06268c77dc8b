import SearchPipeline.Binary64.Text

/-!
# JSON values and how they are written

Values are written on one line or indented, one member to a line.  Numbers are
written so that they read back: a double keeps a point or an exponent.
-/

namespace SearchPipeline

/-- A JSON value, with the entries of objects in order. -/
inductive Json where
  | null
  | boolean (value : Bool)
  | integer (value : Int)
  | double (value : Binary64) (isFinite : value.isFinite)
  | string (value : String)
  | array (items : List Json)
  | object (entries : List (String × Json))

namespace Json

/--
Doubles are written with the fewest digits that read back, of two equally near
ones the even; positionally from the fifth place behind the point to the
sixteenth before it, and always with a point or an exponent.
-/
def doubleLayout : Binary64.Layout where
  tie := .toEven
  isPositional first := -5 ≤ first && first ≤ 15
  keepsPoint := true
  nan := "null"
  infinity := "null"

/-- A double, or `null` for a pattern that is no finite number. -/
def ofDouble (value : Binary64) : Json :=
  if isFinite : value.isFinite then .double value isFinite else .null

/-- One character of a string; quotes, backslashes and control characters are escaped. -/
def escape (char : Char) : List Char :=
  match char with
  | '"' => ['\\', '"']
  | '\\' => ['\\', '\\']
  | '\x08' => ['\\', 'b']
  | '\x0c' => ['\\', 'f']
  | '\n' => ['\\', 'n']
  | '\r' => ['\\', 'r']
  | '\t' => ['\\', 't']
  | char =>
    if char.toNat < 32 then
      ['\\', 'u', '0', '0', Nat.digitChar (char.toNat / 16), Nat.digitChar (char.toNat % 16)]
    else [char]

/-- A string in quotes. -/
def quote (text : String) : List Char :=
  '"' :: text.toList.flatMap escape ++ ['"']

/-- The text of an integer. -/
def integerText (value : Int) : List Char :=
  (if value < 0 then ['-'] else []) ++ Nat.toDigits 10 value.natAbs

mutual

/-- Writes a value on one line, without spaces. -/
def compactText : Json → List Char
  | .null => ['n', 'u', 'l', 'l']
  | .boolean true => ['t', 'r', 'u', 'e']
  | .boolean false => ['f', 'a', 'l', 's', 'e']
  | .integer value => integerText value
  | .double value _ => (value.render doubleLayout).toList
  | .string value => quote value
  | .array items => '[' :: compactItems items
  | .object entries => '\x7b' :: compactEntries entries
termination_by structural value => value

/-- Writes the items of a list and the bracket that closes it. -/
def compactItems : List Json → List Char
  | [] => [']']
  | [item] => compactText item ++ [']']
  | item :: others => compactText item ++ ',' :: compactItems others
termination_by structural items => items

/-- Writes the entries of an object and the brace that closes it. -/
def compactEntries : List (String × Json) → List Char
  | [] => ['\x7d']
  | [(key, value)] => quote key ++ ':' :: compactText value ++ ['\x7d']
  | (key, value) :: others => quote key ++ ':' :: compactText value ++ ',' :: compactEntries others
termination_by structural entries => entries

end

/-- The start of a line at a depth of nesting: two spaces for each level. -/
def newLine (depth : Nat) : List Char :=
  '\n' :: List.replicate (2 * depth) ' '

mutual

/-- Writes a value with each member on a line of its own; an empty list or object stays together. -/
def prettyText (depth : Nat) : Json → List Char
  | .array [] => ['[', ']']
  | .array (item :: items) => '[' :: prettyItems depth (item :: items)
  | .object [] => ['\x7b', '\x7d']
  | .object (entry :: entries) => '\x7b' :: prettyEntries depth (entry :: entries)
  | .null => ['n', 'u', 'l', 'l']
  | .boolean true => ['t', 'r', 'u', 'e']
  | .boolean false => ['f', 'a', 'l', 's', 'e']
  | .integer value => integerText value
  | .double value _ => (value.render doubleLayout).toList
  | .string value => quote value
termination_by structural value => value

/-- Writes the items of a list, one level deeper, and the bracket that closes it. -/
def prettyItems (depth : Nat) : List Json → List Char
  | [] => newLine depth ++ [']']
  | [item] => newLine (depth + 1) ++ prettyText (depth + 1) item ++ newLine depth ++ [']']
  | item :: others =>
    newLine (depth + 1) ++ prettyText (depth + 1) item ++ ',' :: prettyItems depth others
termination_by structural items => items

/-- Writes the entries of an object, one level deeper, and the brace that closes it. -/
def prettyEntries (depth : Nat) : List (String × Json) → List Char
  | [] => newLine depth ++ ['\x7d']
  | [(key, value)] =>
    newLine (depth + 1) ++ quote key ++ [':', ' '] ++ prettyText (depth + 1) value ++
      newLine depth ++ ['\x7d']
  | (key, value) :: others =>
    newLine (depth + 1) ++ quote key ++ [':', ' '] ++ prettyText (depth + 1) value ++
      ',' :: prettyEntries depth others
termination_by structural entries => entries

end

mutual

/-- The same value with the entries of every object in the order of their keys. -/
def sortKeys : Json → Json
  | .array items => .array (sortItems items)
  | .object entries => .object ((sortEntries entries).mergeSort fun left right => left.1 ≤ right.1)
  | value => value
termination_by structural value => value

/-- Sorts the keys within each item. -/
def sortItems : List Json → List Json
  | [] => []
  | item :: items => sortKeys item :: sortItems items
termination_by structural items => items

/-- Sorts the keys within the value of each entry. -/
def sortEntries : List (String × Json) → List (String × Json)
  | [] => []
  | (key, value) :: entries => (key, sortKeys value) :: sortEntries entries
termination_by structural entries => entries

end

/-- The value on one line. -/
def compact (value : Json) : String :=
  String.ofList (compactText value)

/-- The value with each member on a line of its own. -/
def pretty (value : Json) : String :=
  String.ofList (prettyText 0 value)

end Json

end SearchPipeline
