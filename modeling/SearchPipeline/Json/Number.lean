import SearchPipeline.Binary64.Text
import SearchPipeline.Json.Token

/-!
# The numbers of a JSON text

An integer that fits sixty-four bits is kept as it is.  Any other number is a
double: its first digits, as many as fit sixty-four bits, are scaled by a power
of ten with one rounding, or with a few where the power is out of range.
-/

namespace SearchPipeline.Json

/-- A number as it is understood: an integer of sixty-four bits, or a double. -/
inductive Number where
  | natural (value : Nat)
  | negative (value : Int)
  | double (value : Binary64)
deriving DecidableEq

namespace NumberText

/-- Adds digits to a number while it fits sixty-four bits; the digits left over come second. -/
def accumulate (value : Nat) : List Char → Nat × List Char
  | [] => (value, [])
  | digit :: rest =>
    let more := value * 10 + (digit.toNat - '0'.toNat)
    if more < UInt64.size then accumulate more rest else (value, digit :: rest)

/--
Scales a double by a power of ten.  A power that is no double itself is applied
in steps downward; upward the result would be infinite, which is refused.
-/
def scale? (value : Binary64) (exponent : Int) : Option Binary64 :=
  if exponent.natAbs ≤ 308 then
    if 0 ≤ exponent then
      let scaled := value.mul (.tenTo exponent.natAbs)
      if scaled.isFinite then some scaled else none
    else some (value.div (.tenTo exponent.natAbs))
  else if value.magnitude = 0 then some value
  else if 0 ≤ exponent then none
  else scale? (value.div (.tenTo 308)) (exponent + 308)
termination_by exponent.natAbs
decreasing_by omega

/-- Exponents are counted up to this bound, which is far outside the range of doubles. -/
def exponentBound : Nat := 1 <<< 31

/-- The size of the double with some first digits and a power of ten. -/
def size? (digits : Nat) (exponent : Int) (written : Option (Bool × List Char)) :
    Option Binary64 :=
  match written with
  | none => scale? (.ofInt digits) exponent
  | some (negative, written) =>
    let shift := Binary64.digitsValue written
    if shift < exponentBound then
      let shifted : Int := if negative then exponent - shift else exponent + shift
      scale? (.ofInt digits) (max (-exponentBound) (min shifted (exponentBound - 1)))
    else if digits = 0 ∨ negative then some .zero
    else none

/-- The double that a number stands for; a number too large for a double has none. -/
def double? (number : NumberText) : Option Binary64 :=
  let (digits, dropped) := accumulate 0 number.whole
  let fraction := number.fraction.getD []
  let (digits, left) := accumulate digits fraction
  let exponent : Int := dropped.length - (fraction.length - left.length : Nat)
  (size? digits exponent number.exponent).map fun size =>
    if number.negative then size.neg else size

/-- What a number stands for: zero with a sign is a double, as is an integer past its range. -/
def value? (number : NumberText) : Option Number :=
  let digits := Binary64.digitsValue number.whole
  if number.fraction.isNone ∧ number.exponent.isNone ∧ digits < UInt64.size then
    if !number.negative then some (.natural digits)
    else if digits ≠ 0 ∧ digits ≤ 1 <<< 63 then some (.negative (-digits))
    else some (.double (Binary64.ofInt digits).neg)
  else number.double?.map .double

end NumberText

end SearchPipeline.Json
