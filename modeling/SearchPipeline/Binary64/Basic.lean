/-!
# Double-precision numbers

A double is given by its bit pattern.  Every finite double is a whole multiple
of the least positive one, so values are counted in that unit and rounding is
exact arithmetic on natural numbers: `ofRatio` gives the double nearest to a
quotient, a half going to the even neighbour.
-/

namespace SearchPipeline

/-- A double-precision number, given by its sixty-four bits. -/
@[ext]
structure Binary64 where
  /-- Sign, exponent field and fraction field, from the highest bit down. -/
  bits : UInt64
deriving DecidableEq

namespace Binary64

/-- Bits of the infinite magnitude; larger magnitudes stand for no number. -/
def infiniteMagnitude : Nat := 2047 <<< 52

/-- The bits below the sign. -/
def magnitude (number : Binary64) : Nat :=
  number.bits.toNat % 1 <<< 63

/-- Whether the sign bit is set. -/
def isNegative (number : Binary64) : Bool :=
  1 <<< 63 ≤ number.bits.toNat

/-- Whether the pattern stands for a real number. -/
def isFinite (number : Binary64) : Bool :=
  number.magnitude < infiniteMagnitude

/-- Whether the pattern stands for no number at all. -/
def isNaN (number : Binary64) : Bool :=
  infiniteMagnitude < number.magnitude

/-- The double with a sign and a magnitude. -/
def ofMagnitude (negative : Bool) (magnitude : Nat) : Binary64 :=
  ⟨UInt64.ofNat ((if negative then 1 <<< 63 else 0) + magnitude)⟩

/-- The double with the same magnitude and the other sign. -/
def neg (number : Binary64) : Binary64 :=
  ofMagnitude (!number.isNegative) number.magnitude

/-- Positive zero. -/
def zero : Binary64 := ofMagnitude false 0

/-- Infinity, with a sign. -/
def infinity (negative : Bool) : Binary64 :=
  ofMagnitude negative infiniteMagnitude

/-- The pattern used for a result that is no number. -/
def nan : Binary64 := ofMagnitude false (infiniteMagnitude + 1 <<< 51)

/-- The exponent of the last significand bit, counted from the least one. -/
def scale (number : Binary64) : Nat :=
  number.magnitude >>> 52 - 1

/-- The significand of a finite double, its leading bit written out. -/
def significand (number : Binary64) : Nat :=
  number.magnitude - number.scale <<< 52

/-- The size of a finite double, counted in the least positive double `2 ^ -1074`. -/
def units (number : Binary64) : Nat :=
  number.significand <<< number.scale

/-- The whole number nearest to a quotient, a half going to the even neighbour. -/
def roundHalfEven (numerator denominator : Nat) : Nat :=
  let quotient := numerator / denominator
  let twice := 2 * (numerator % denominator)
  if twice < denominator then quotient
  else if denominator < twice then quotient + 1
  else quotient + quotient % 2

/--
The magnitude of the double nearest to a quotient.  The significand keeps
fifty-three bits, or fewer next to zero; a carry out of the significand lands in
the exponent field, and a result past the largest double is infinite.
-/
def magnitudeOfRatio (numerator denominator : Nat) : Nat :=
  let units := numerator <<< 1074
  let scale := Nat.log2 (units / denominator) - 52
  min (scale <<< 52 + roundHalfEven units (denominator <<< scale)) infiniteMagnitude

/-- The double nearest to a quotient, with a sign. -/
def ofRatio (negative : Bool) (numerator denominator : Nat) : Binary64 :=
  ofMagnitude negative (magnitudeOfRatio numerator denominator)

/-- The double nearest to an integer. -/
def ofInt (value : Int) : Binary64 :=
  ofRatio (value < 0) value.natAbs 1

/-- The double nearest to a power of ten. -/
def tenTo (exponent : Nat) : Binary64 :=
  ofRatio false (Nat.pow 10 exponent) 1

/-- The double nearest to the product of two finite doubles of positive sign. -/
def mul (left right : Binary64) : Binary64 :=
  ofRatio false (left.units * right.units) (1 <<< 2148)

/-- The double nearest to the quotient of two finite doubles of positive sign. -/
def div (left right : Binary64) : Binary64 :=
  ofRatio false left.units right.units

/-- A double's place on the number line; both zeros share one place. -/
def place (number : Binary64) : Int :=
  if number.isNegative then -number.magnitude else number.magnitude

/-- Numeric order; a pattern that is no number is above and below nothing. -/
def lt (left right : Binary64) : Bool :=
  !left.isNaN && !right.isNaN && left.place < right.place

end Binary64

end SearchPipeline
