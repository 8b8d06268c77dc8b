import SearchPipeline.Binary64.Text

/-!
# Decimal numbers of thirty-four digits

A decimal keeps the digits it was written with: `1.50` and `1.5` differ.  Reading
never rounds; a number that does not fit without loss is refused.  `ofBits` takes
a decimal from its packed form, `ofText?` from text.
-/

namespace SearchPipeline

/-- A decimal number with up to thirty-four digits, or an infinity, or no number. -/
inductive Decimal128 where
  | finite (negative : Bool) (digits : Nat) (exponent : Int)
  | infinity (negative : Bool)
  | nan
deriving DecidableEq

namespace Decimal128

/-- The most digits a decimal keeps. -/
def maxDigits : Nat := 34

/-- The least exponent. -/
def minExponent : Int := -6176

/-- The greatest exponent. -/
def maxExponent : Int := 6111

/--
The decimal with a pattern of bits: the sign, fourteen bits of exponent, and the
digits.  After two ones the exponent starts behind them, and the digits, of which
the pattern then holds the end only, are too many.  Digits that are too many count
as zero.  Four ones stand for an infinity, and five for what is no number.
-/
def ofBits (bits : BitVec 128) : Decimal128 :=
  let negative := bits.msb
  if bits.extractLsb' 123 4 = 15 then
    if bits.getLsbD 122 then nan else infinity negative
  else if bits.extractLsb' 125 2 = 3 then
    finite negative 0 ((bits.extractLsb' 111 14).toNat + minExponent)
  else
    let digits := (bits.extractLsb' 0 113).toNat
    finite negative (if digits < Nat.pow 10 maxDigits then digits else 0)
      ((bits.extractLsb' 113 14).toNat + minExponent)

/-- The decimal whose pattern is given as sixteen bytes, the lowest first. -/
def ofBytes? (bytes : List UInt8) : Option Decimal128 :=
  if bytes.length = 16 then
    some (ofBits (.ofNat 128 (bytes.foldr (fun byte value => byte.toNat + 256 * value) 0)))
  else none

/-- Written exponents are integers of one hundred and twenty-eight bits: all below this bound. -/
def exponentBound : Nat := 1 <<< 127

/-- The range of exponents that can be written. -/
def isWrittenExponent (exponent : Int) : Bool :=
  -exponentBound ≤ exponent && exponent < exponentBound

/-- Keeps the first digits of a number if all others are zeros. -/
def keepDigits? (count : Nat) (digits : List Char) : Option (List Char) :=
  if (digits.drop count).all (· = '0') then some (digits.take count) else none

/-- Shortens the digits of a number to as many as are kept, if that loses nothing. -/
def fitDigits? (digits : List Char) (exponent : Int) : Option (List Char × Int) :=
  (keepDigits? maxDigits digits).map fun kept =>
    (kept, exponent + (digits.length - kept.length : Nat))

/--
Brings the exponent into range by dropping or adding zeros, if that loses nothing.
Zero has no digits to lose and takes the nearest exponent.
-/
def fitExponent? (digits : List Char) (exponent : Int) : Option (List Char × Int) :=
  if exponent < minExponent then
    if digits = ['0'] then some (digits, minExponent)
    else
      let dropped := (minExponent - exponent).toNat
      if dropped ≤ digits.length then
        (keepDigits? (digits.length - dropped) digits).map (·, minExponent)
      else none
  else if maxExponent < exponent then
    if digits = ['0'] then some (digits, maxExponent)
    else
      let added := (exponent - maxExponent).toNat
      if digits.length + added ≤ maxDigits then
        some (digits ++ List.replicate added '0', maxExponent)
      else none
  else some (digits, exponent)

/-- The natural number in a text of digits, which may follow a plus sign. -/
def natural? (text : List Char) : Option Nat :=
  let digits := match text with
    | '+' :: rest => rest
    | text => text
  if digits ≠ [] ∧ digits.all Char.isDigit then some (Binary64.digitsValue digits) else none

/-- Reads a finite decimal without its sign. -/
def finiteOfText? (negative : Bool) (text : List Char) : Option Decimal128 := do
  let mantissa := text.takeWhile (· ≠ 'e')
  let exponent ← match text.dropWhile (· ≠ 'e') with
    | [] => some 0
    | _ :: rest =>
      let (negative, digits) := Binary64.splitSign rest
      if digits ≠ [] ∧ digits.all Char.isDigit then
        let size : Int := Binary64.digitsValue digits
        some (if negative then -size else size)
      else none
  let whole := mantissa.takeWhile (· ≠ '.')
  let fraction := (mantissa.dropWhile (· ≠ '.')).drop 1
  let written := exponent - fraction.length
  if !isWrittenExponent exponent || !isWrittenExponent written then none
  else
    let stripped := (whole ++ fraction).dropWhile (· = '0')
    let digits := if stripped = [] then ['0'] else stripped
    let (digits, exponent) ← fitDigits? digits written
    let (digits, exponent) ← fitExponent? digits exponent
    (natural? digits).map (finite negative · exponent)

/-- Reads a decimal: an optional sign, then a number or a word, in any case of letters. -/
def ofText? (text : String) : Option Decimal128 :=
  let (negative, rest) := Binary64.splitSign text.toList
  let rest := rest.map Char.toLower
  let word := String.ofList rest
  if word = "nan" ∨ word = "snan" then some nan
  else if word = "infinity" ∨ word = "inf" then some (infinity negative)
  else finiteOfText? negative rest

/--
Writes a finite decimal: positionally if it has no final zeros to supply and its
first digit is no further behind the point than the sixth, else with an exponent.
-/
def renderFinite (digits : Nat) (exponent : Int) : List Char :=
  let written := Nat.toDigits 10 digits
  let first := exponent + (written.length - 1 : Nat)
  if exponent ≤ 0 ∧ -6 ≤ first then
    if exponent = 0 then written else Binary64.positional false ⟨digits, exponent⟩
  else
    let fraction := written.drop 1
    written.take 1 ++ (if fraction.isEmpty then [] else '.' :: fraction) ++ 'E' ::
      (if 0 < first then ['+'] else if first < 0 then ['-'] else []) ++
        Nat.toDigits 10 first.natAbs

/-- The text of a decimal; what is no number has no sign. -/
def render (number : Decimal128) : String :=
  let sign (negative : Bool) := if negative then ['-'] else []
  match number with
  | .finite negative digits exponent => String.ofList (sign negative ++ renderFinite digits exponent)
  | .infinity negative => String.ofList (sign negative ++ "Infinity".toList)
  | .nan => "NaN"

end Decimal128

end SearchPipeline
