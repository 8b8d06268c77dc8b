import SearchPipeline.Binary64.Basic

/-!
# Decimals that read back as a double

`shortest` picks, among the decimals that read back as a given double, one with
the fewest digits, and of those the nearest.  For each number of digits only the
double's two neighbours on that decimal grid can qualify, so the search tries
grid after grid in exact arithmetic.
-/

namespace SearchPipeline

/-- The number `digits * 10 ^ exponent`. -/
structure Decimal where
  digits : Nat
  exponent : Int
deriving DecidableEq

namespace Decimal

/-- How many digits a natural number is written with. -/
def length (digits : Nat) : Nat :=
  (Nat.toDigits 10 digits).length

/-- The same number without trailing zeros among its digits. -/
def trim (fuel : Nat) (number : Decimal) : Decimal :=
  match fuel with
  | 0 => number
  | fuel + 1 =>
    if number.digits ≠ 0 ∧ number.digits % 10 = 0 then
      trim fuel ⟨number.digits / 10, number.exponent + 1⟩
    else number

end Decimal

namespace Binary64

/-- Which of two equally near decimals is written. -/
inductive TieRule where
  | toEven
  | up
deriving DecidableEq

/-- The greatest exponent whose power of ten is at most a positive quotient. -/
def decimalExponent (numerator denominator : Nat) : Int :=
  if denominator ≤ numerator then
    (Decimal.length (numerator / denominator) : Int) - 1
  else
    -(Decimal.length ((denominator - 1) / numerator) : Int)

/--
The reals that round to a positive double, counted in quarters of the least
positive double: lower end, the double itself, upper end.  Below a power of two
doubles are closer together.  The ends belong to it iff the significand is even.
-/
def roundingInterval (number : Binary64) : Nat × Nat × Nat :=
  let significand := number.significand
  let scale := number.scale
  let below := if significand = 1 <<< 52 ∧ 0 < scale then 1 else 2
  ((4 * significand - below) <<< scale, (4 * significand) <<< scale,
    (4 * significand + 2) <<< scale)

/-- The decimal with so many digits that reads back as a positive double, if there is one. -/
def withDigits (tie : TieRule) (number : Binary64) (count : Nat) : Option Decimal :=
  let (lower, value, upper) := number.roundingInterval
  let exponent := decimalExponent value (1 <<< 1076) + 1 - count
  let up := Nat.pow 10 (-exponent).toNat
  let unit := Nat.pow 10 exponent.toNat <<< 1076
  let within (digits : Nat) : Bool :=
    if number.significand % 2 = 0 then
      lower * up ≤ digits * unit && digits * unit ≤ upper * up
    else
      lower * up < digits * unit && digits * unit < upper * up
  let floor := value * up / unit
  let rest := 2 * (value * up % unit)
  let nearer :=
    if rest < unit then floor
    else if unit < rest then floor + 1
    else match tie with
      | .toEven => floor + floor % 2
      | .up => floor + 1
  let farther := 2 * floor + 1 - nearer
  if within nearer then some ⟨nearer, exponent⟩
  else if within farther then some ⟨farther, exponent⟩
  else none

/-- The first grid, from so many digits on, that holds a decimal reading back as the double. -/
def shortestFrom (tie : TieRule) (number : Binary64) (count : Nat) : (tries : Nat) → Decimal
  | 0 => ⟨number.units, -1074⟩
  | tries + 1 =>
    match number.withDigits tie count with
    | some decimal => decimal
    | none => shortestFrom tie number (count + 1) tries

/-- The shortest decimal that reads back as a finite double's magnitude; zero has one digit. -/
def shortest (tie : TieRule) (number : Binary64) : Decimal :=
  if number.magnitude = 0 then ⟨0, 0⟩
  else (shortestFrom tie number 1 17).trim 17

end Binary64

end SearchPipeline
