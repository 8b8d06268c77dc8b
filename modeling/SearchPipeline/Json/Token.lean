import SearchPipeline.Text.Hex
import SearchPipeline.Text.Utf8

/-!
# The tokens of a JSON text

`Token.scan` cuts a text into tokens from left to right.  Where a text breaks the
rules for tokens, a last token `fault` stands, so that whatever comes before it
can still be read.
-/

namespace SearchPipeline.Json

/-- A number as written: its sign, its digits, and its exponent's sign and digits. -/
structure NumberText where
  negative : Bool
  whole : List Char
  fraction : Option (List Char)
  exponent : Option (Bool × List Char)
deriving DecidableEq

/-- A unit of a string. -/
inductive TextUnit where
  /-- A character that may stand in a string, or an escape with one letter. -/
  | char (value : Char)
  /-- A code from an escape with four digits. -/
  | code (value : Nat)
  /-- A control character that stands in a string unescaped. -/
  | control (value : Char)
deriving DecidableEq

/-- A token of a JSON text. -/
inductive Token where
  | openObject
  | closeObject
  | openArray
  | closeArray
  | comma
  | colon
  | null
  | boolean (value : Bool)
  | number (text : NumberText)
  | string (units : List TextUnit)
  /-- What follows is no token. -/
  | fault
deriving DecidableEq

namespace TextUnit

/-- The character an escape with one letter stands for. -/
def escape? : Char → Option Char
  | '"' => some '"'
  | '\\' => some '\\'
  | '/' => some '/'
  | 'b' => some '\x08'
  | 'f' => some '\x0c'
  | 'n' => some '\n'
  | 'r' => some '\r'
  | 't' => some '\t'
  | _ => none

/-- The units of a string up to its closing quote, and what follows the quote. -/
def scan? : List Char → Option (List TextUnit × List Char)
  | [] => none
  | '"' :: rest => some ([], rest)
  | '\\' :: 'u' :: a :: b :: c :: d :: rest =>
    match Hex.value? [a, b, c, d], scan? rest with
    | some value, some (units, rest) => some (.code value :: units, rest)
    | _, _ => none
  | '\\' :: letter :: rest =>
    match escape? letter, scan? rest with
    | some value, some (units, rest) => some (.char value :: units, rest)
    | _, _ => none
  | head :: rest =>
    match scan? rest with
    | some (units, rest) =>
      some ((if head.toNat < 32 then .control head else .char head) :: units, rest)
    | none => none

theorem scan?_length_lt
    {text : List Char}
    {units : List TextUnit}
    {rest : List Char}
    (scanned : scan? text = some (units, rest)) :
    rest.length < text.length := by
  fun_induction scan? text generalizing units rest
  all_goals simp only [Option.some.injEq, Prod.mk.injEq, reduceCtorEq] at scanned
  case case2 => simp [← scanned.2]
  all_goals
    rename_i shorter
    have := shorter ‹_›
    simp only [List.length_cons, ← scanned.2]
    omega

/-- Whether a code is the first half of a surrogate pair. -/
def isHigh (code : Nat) : Bool :=
  0xD800 ≤ code && code ≤ 0xDBFF

/-- Whether a code is the second half of a surrogate pair. -/
def isLow (code : Nat) : Bool :=
  0xDC00 ≤ code && code ≤ 0xDFFF

/-- The code points that units stand for; the two halves of a surrogate pair make one. -/
def points : List TextUnit → List Nat
  | [] => []
  | .code high :: .code low :: rest =>
    if isHigh high && isLow low then
      (0x10000 + (high - 0xD800) * 0x400 + (low - 0xDC00)) :: points rest
    else high :: points (.code low :: rest)
  | .code value :: rest => value :: points rest
  | .char value :: rest => value.toNat :: points rest
  | .control value :: rest => value.toNat :: points rest

/-- Whether a string has the form of one: no control character stands in it unescaped. -/
def isWellFormed (units : List TextUnit) : Bool :=
  units.all fun
    | .control _ => false
    | _ => true

/-- The character of a code point; half of a surrogate pair has none. -/
def char? (point : Nat) : Option Char :=
  if point.isValidChar then some (Char.ofNat point) else none

/-- The text of a string that has the form of one and no half of a surrogate pair. -/
def text? (units : List TextUnit) : Option String :=
  if isWellFormed units then ((points units).mapM char?).map String.ofList else none

/-- The bytes of a string, whatever stands in it. -/
def bytes (units : List TextUnit) : List UInt8 :=
  (points units).flatMap Utf8.encode

end TextUnit

namespace NumberText

/-- The fraction after a number's first digits, if there is a point, and what follows. -/
def scanFraction? : List Char → Option (Option (List Char) × List Char)
  | '.' :: rest =>
    let digits := rest.takeWhile Char.isDigit
    if digits = [] then none else some (some digits, rest.dropWhile Char.isDigit)
  | rest => some (none, rest)

/-- The exponent after a number's digits, if there is a mark, and what follows. -/
def scanExponent? : List Char → Option (Option (Bool × List Char) × List Char)
  | [] => some (none, [])
  | mark :: rest =>
    if mark = 'e' ∨ mark = 'E' then
      let (negative, rest) := match rest with
        | '-' :: rest => (true, rest)
        | '+' :: rest => (false, rest)
        | rest => (false, rest)
      let digits := rest.takeWhile Char.isDigit
      if digits = [] then none
      else some (some (negative, digits), rest.dropWhile Char.isDigit)
    else some (none, mark :: rest)

/-- A number without its sign, and what follows; a first digit zero stands alone. -/
def scanUnsigned? (negative : Bool) : List Char → Option (NumberText × List Char)
  | [] => none
  | first :: rest =>
    if first.isDigit then
      let more := rest.takeWhile Char.isDigit
      if first = '0' ∧ more ≠ [] then none
      else
        match scanFraction? (rest.dropWhile Char.isDigit) with
        | none => none
        | some (fraction, rest) =>
          match scanExponent? rest with
          | none => none
          | some (exponent, rest) => some (⟨negative, first :: more, fraction, exponent⟩, rest)
    else none

/-- A number at the start of a text, and what follows it. -/
def scan? : List Char → Option (NumberText × List Char)
  | '-' :: rest => scanUnsigned? true rest
  | rest => scanUnsigned? false rest

theorem length_dropWhile_le
    (test : Char → Bool)
    (text : List Char) :
    (text.dropWhile test).length ≤ text.length :=
  (List.dropWhile_suffix test).length_le

theorem scanFraction?_length_le
    {text rest : List Char}
    {fraction : Option (List Char)}
    (scanned : scanFraction? text = some (fraction, rest)) :
    rest.length ≤ text.length := by
  unfold scanFraction? at scanned
  split at scanned
  · rename_i tail
    have := length_dropWhile_le Char.isDigit tail
    grind
  · grind

theorem scanExponent?_length_le
    {text rest : List Char}
    {exponent : Option (Bool × List Char)}
    (scanned : scanExponent? text = some (exponent, rest)) :
    rest.length ≤ text.length := by
  unfold scanExponent? at scanned
  have dropped := length_dropWhile_le Char.isDigit
  split at scanned
  · grind
  · split at scanned
    · split at scanned
      grind
    · grind

theorem scanUnsigned?_length_lt
    {negative : Bool}
    {text rest : List Char}
    {number : NumberText}
    (scanned : scanUnsigned? negative text = some (number, rest)) :
    rest.length < text.length := by
  cases text with
  | nil => simp [scanUnsigned?] at scanned
  | cons first tail =>
    have dropped := length_dropWhile_le Char.isDigit tail
    simp only [scanUnsigned?] at scanned
    repeat' split at scanned
    all_goals try contradiction
    rename_i fractionRead _ _ _ exponentRead
    have afterFraction := scanFraction?_length_le fractionRead
    have afterExponent := scanExponent?_length_le exponentRead
    simp only [Option.some.injEq, Prod.mk.injEq] at scanned
    simp only [← scanned.2, List.length_cons]
    omega

theorem scan?_length_lt
    {text rest : List Char}
    {number : NumberText}
    (scanned : scan? text = some (number, rest)) :
    rest.length < text.length := by
  unfold scan? at scanned
  split at scanned
  · exact Nat.lt_succ_of_lt (scanUnsigned?_length_lt scanned)
  · exact scanUnsigned?_length_lt scanned

end NumberText

namespace Token

/-- Whether a character may stand between tokens. -/
def isSpace (char : Char) : Bool :=
  char = ' ' || char = '\t' || char = '\n' || char = '\r'

/-- The tokens of a text, up to the first place where there is none. -/
def scan : List Char → List Token
  | [] => []
  | '\x7b' :: rest => .openObject :: scan rest
  | '\x7d' :: rest => .closeObject :: scan rest
  | '[' :: rest => .openArray :: scan rest
  | ']' :: rest => .closeArray :: scan rest
  | ',' :: rest => .comma :: scan rest
  | ':' :: rest => .colon :: scan rest
  | 'n' :: 'u' :: 'l' :: 'l' :: rest => .null :: scan rest
  | 't' :: 'r' :: 'u' :: 'e' :: rest => .boolean true :: scan rest
  | 'f' :: 'a' :: 'l' :: 's' :: 'e' :: rest => .boolean false :: scan rest
  | '"' :: rest =>
    match _scanned : TextUnit.scan? rest with
    | some (units, rest) => .string units :: scan rest
    | none => [.fault]
  | head :: rest =>
    if isSpace head then scan rest
    else
      match _scanned : NumberText.scan? (head :: rest) with
      | some (written, rest) => .number written :: scan rest
      | none => [.fault]
termination_by text => text.length
decreasing_by
  all_goals first
    | exact NumberText.scan?_length_lt ‹_›
    | exact Nat.lt_succ_of_lt (TextUnit.scan?_length_lt ‹_›)
    | (simp only [List.length_cons]; omega)

end Token

end SearchPipeline.Json
