import SearchPipeline.Binary64.Decimal

/-!
# How doubles are written and read

A layout says how the shortest decimal of a double becomes text.  Reading rounds
the decimal in the text to the nearest double.
-/

namespace SearchPipeline

namespace Binary64

/-- The choices that turn the shortest decimal of a double into text. -/
structure Layout where
  /-- Which of two equally near decimals is written. -/
  tie : TieRule
  /-- The exponents of the first digit that are written without an exponent mark. -/
  isPositional : Int → Bool
  /-- Whether a whole number keeps a point and one zero. -/
  keepsPoint : Bool
  /-- What is written for a pattern that is no number. -/
  nan : String
  /-- What is written for positive infinity. -/
  infinity : String

/-- Places digits before and after a point, filling with zeros as needed. -/
def positional (keepsPoint : Bool) (decimal : Decimal) : List Char :=
  let digits := Nat.toDigits 10 decimal.digits
  if 0 ≤ decimal.exponent then
    digits ++ List.replicate decimal.exponent.toNat '0' ++
      (if keepsPoint then ['.', '0'] else [])
  else
    let places := (-decimal.exponent).toNat
    let filled := List.replicate (places + 1 - digits.length) '0' ++ digits
    filled.take (filled.length - places) ++ '.' :: filled.drop (filled.length - places)

/-- One digit before the point, and an exponent that always carries its sign. -/
def scientific (decimal : Decimal) : List Char :=
  let digits := Nat.toDigits 10 decimal.digits
  let exponent := decimal.exponent + (digits.length - 1 : Nat)
  let fraction := digits.drop 1
  digits.take 1 ++ (if fraction.isEmpty then [] else '.' :: fraction) ++
    'e' :: (if exponent < 0 then '-' else '+') :: Nat.toDigits 10 exponent.natAbs

/-- The text of a double under a layout. -/
def render (layout : Layout) (number : Binary64) : String :=
  if number.isNaN then layout.nan
  else
    let sign := if number.isNegative then ['-'] else []
    if number.isFinite then
      let decimal := number.shortest layout.tie
      let first := decimal.exponent + (Decimal.length decimal.digits - 1 : Nat)
      String.ofList (sign ++
        if layout.isPositional first then positional layout.keepsPoint decimal
        else scientific decimal)
    else String.ofList sign ++ layout.infinity

/--
The double nearest to `digits * 10 ^ exponent`.  Exponents far outside the range
of doubles are answered without computing the power.
-/
def ofDecimal (negative : Bool) (decimal : Decimal) : Binary64 :=
  let first := decimal.exponent + Decimal.length decimal.digits
  if decimal.digits = 0 ∨ first < -400 then ofMagnitude negative 0
  else if 400 < first then infinity negative
  else ofRatio negative (decimal.digits * Nat.pow 10 decimal.exponent.toNat)
    (Nat.pow 10 (-decimal.exponent).toNat)

/-- The number that decimal digits stand for. -/
def digitsValue (digits : List Char) : Nat :=
  digits.foldl (fun value digit => value * 10 + (digit.toNat - '0'.toNat)) 0

/-- Splits a leading sign off; no sign counts as plus. -/
def splitSign : List Char → Bool × List Char
  | '-' :: rest => (true, rest)
  | '+' :: rest => (false, rest)
  | rest => (false, rest)

/-- The exponent after a number's digits: absent, or a mark, a sign if wanted, and digits. -/
def exponentOfText? : List Char → Option Int
  | [] => some 0
  | mark :: rest =>
    let (negative, digits) := splitSign rest
    if (mark = 'e' ∨ mark = 'E') ∧ digits ≠ [] ∧ digits.all Char.isDigit then
      some (if negative then -digitsValue digits else digitsValue digits)
    else none

/-- Reads the digits of a number without sign: digits and a point, then an exponent if wanted. -/
def decimalOfText? (text : List Char) : Option Decimal :=
  let whole := text.takeWhile Char.isDigit
  let rest := text.dropWhile Char.isDigit
  let (fraction, rest) := match rest with
    | '.' :: rest => (rest.takeWhile Char.isDigit, rest.dropWhile Char.isDigit)
    | rest => ([], rest)
  if whole = [] ∧ fraction = [] then none
  else (exponentOfText? rest).map fun exponent =>
    ⟨digitsValue (whole ++ fraction), exponent - fraction.length⟩

/--
Reads a double: an optional sign and then a decimal number, or, in any case of
letters, a word for infinity or for a pattern that is no number.
-/
def ofText? (text : String) : Option Binary64 :=
  let (negative, rest) := splitSign text.toList
  let word := String.ofList (rest.map Char.toLower)
  if word = "inf" ∨ word = "infinity" then some (infinity negative)
  else if word = "nan" then some nan
  else (decimalOfText? rest).map (ofDecimal negative)

end Binary64

end SearchPipeline
