import SearchPipeline.Proofs.DoubleOrder

/-!
# Integers as doubles

A double keeps fifty-three bits of an integer, and the ones behind them are rounded away.  Rounding
keeps the order of integers, so two integers are compared as doubles the right way round or, where
both become the same double, as equal.  Integers of fifty-three bits are doubles themselves, and
integers of sixty-four bits are different doubles if they are more than 1024 apart.
-/

namespace SearchPipeline.Binary64

/-! ## The nearest whole number -/

section RoundHalfEven

theorem roundHalfEven_cases (numerator denominator : Nat) :
    roundHalfEven numerator denominator = numerator / denominator ∧
        2 * (numerator % denominator) ≤ denominator ∨
      roundHalfEven numerator denominator = numerator / denominator + 1 ∧
        denominator ≤ 2 * (numerator % denominator) := by
  unfold roundHalfEven
  dsimp only
  split
  · omega
  · split <;> omega

theorem roundHalfEven_mul_right
    (numerator denominator : Nat)
    {factor : Nat}
    (positive : 0 < factor) :
    roundHalfEven (numerator * factor) (denominator * factor) =
      roundHalfEven numerator denominator := by
  unfold roundHalfEven
  simp only [Nat.mul_div_mul_right _ _ positive, Nat.mul_mod_mul_right, ← Nat.mul_assoc,
    Nat.mul_lt_mul_right positive]

theorem roundHalfEven_mono
    {smaller greater : Nat}
    (ordered : smaller ≤ greater)
    (denominator : Nat) :
    roundHalfEven smaller denominator ≤ roundHalfEven greater denominator := by
  have quotients : smaller / denominator ≤ greater / denominator :=
    Nat.div_le_div_right ordered
  rcases Nat.lt_or_eq_of_le quotients with below | same
  · have := roundHalfEven_cases smaller denominator
    have := roundHalfEven_cases greater denominator
    omega
  · -- Between the same two multiples the remainders are in order.
    have smallerParts := Nat.div_add_mod smaller denominator
    have greaterParts := Nat.div_add_mod greater denominator
    rw [same] at smallerParts
    unfold roundHalfEven
    rw [same]
    dsimp only
    split_ifs <;> omega

variable {denominator : Nat}
  (positive : 0 < denominator)

include positive

theorem roundHalfEven_mul_self (quotient : Nat) :
    roundHalfEven (quotient * denominator) denominator = quotient := by
  simp [roundHalfEven, Nat.mul_div_cancel _ positive, positive]

/-- Rounding does not cross a multiple. -/
theorem le_roundHalfEven
    {quotient numerator : Nat}
    (above : quotient * denominator ≤ numerator) :
    quotient ≤ roundHalfEven numerator denominator := by
  calc
    quotient = roundHalfEven (quotient * denominator) denominator :=
      (roundHalfEven_mul_self positive quotient).symm
    _ ≤ roundHalfEven numerator denominator := roundHalfEven_mono above denominator

theorem roundHalfEven_le
    {quotient numerator : Nat}
    (below : numerator ≤ quotient * denominator) :
    roundHalfEven numerator denominator ≤ quotient := by
  calc
    roundHalfEven numerator denominator ≤ roundHalfEven (quotient * denominator) denominator :=
      roundHalfEven_mono below denominator
    _ = quotient := roundHalfEven_mul_self positive quotient

/-- The multiple that a number is rounded to is at most half a denominator away. -/
theorem roundHalfEven_mul_near (numerator : Nat) :
    2 * (roundHalfEven numerator denominator * denominator) ≤ 2 * numerator + denominator ∧
      2 * numerator ≤ 2 * (roundHalfEven numerator denominator * denominator) + denominator := by
  have parts := Nat.div_add_mod numerator denominator
  rw [Nat.mul_comm] at parts
  have rest := Nat.mod_lt numerator positive
  rcases roundHalfEven_cases numerator denominator with ⟨rounded, near⟩ | ⟨rounded, near⟩
  · rw [rounded]
    omega
  · rw [rounded, Nat.add_one_mul (numerator / denominator)]
    omega

end RoundHalfEven

/-! ## Powers of two -/

section Shifts

variable {size : Nat}

theorem shiftLeft_eq_mul (places : Nat) : size <<< places = size * 1 <<< places := by
  rw [Nat.shiftLeft_eq, Nat.one_shiftLeft]

theorem one_shiftLeft_pos (power : Nat) : 0 < 1 <<< power := by
  rw [Nat.one_shiftLeft]
  exact Nat.two_pow_pos power

theorem one_shiftLeft_mono
    {smaller greater : Nat}
    (ordered : smaller ≤ greater) :
    1 <<< smaller ≤ 1 <<< greater := by
  rw [Nat.one_shiftLeft, Nat.one_shiftLeft]
  exact Nat.pow_le_pow_right (by decide) ordered

theorem one_shiftLeft_log2_le (positive : size ≠ 0) : 1 <<< size.log2 ≤ size := by
  rw [Nat.one_shiftLeft]
  exact Nat.log2_self_le positive

theorem lt_one_shiftLeft_log2 (size : Nat) : size < 1 <<< (size.log2 + 1) := by
  rw [Nat.one_shiftLeft]
  exact Nat.lt_log2_self

theorem log2_lt_of_lt
    {power : Nat}
    (least : 0 < power)
    (small : size < 1 <<< power) :
    size.log2 < power := by
  by_cases zero : size = 0
  · rw [zero]
    exact least
  · rw [Nat.one_shiftLeft] at small
    exact (Nat.log2_lt zero).mpr small

theorem log2_shiftLeft
    (positive : size ≠ 0)
    (places : Nat) :
    (size <<< places).log2 = size.log2 + places := by
  have filled : size <<< places ≠ 0 := by
    rw [shiftLeft_eq_mul]
    exact Nat.mul_ne_zero positive (Nat.ne_of_gt (one_shiftLeft_pos places))
  rw [Nat.log2_eq_iff filled, Nat.shiftLeft_eq, Nat.pow_add, Nat.add_right_comm, Nat.pow_add]
  exact ⟨Nat.mul_le_mul_right _ (Nat.log2_self_le positive),
    Nat.mul_lt_mul_of_pos_right Nat.lt_log2_self (Nat.two_pow_pos places)⟩

end Shifts

/-! ## Integers rounded to a significand -/

/-- The weight of the last bit that is kept of an integer of some size. -/
def integerStep (size : Nat) : Nat :=
  1 <<< (size.log2 - 52)

/-- The size that an integer of some size has as a double. -/
def roundSize (size : Nat) : Nat :=
  roundHalfEven size (integerStep size) * integerStep size

/-- The integer that an integer becomes as a double. -/
def roundInt (value : Int) : Int :=
  if value < 0 then -roundSize value.natAbs else roundSize value.natAbs

section RoundSize

variable {size : Nat}

theorem integerStep_pos (size : Nat) : 0 < integerStep size :=
  one_shiftLeft_pos _

/-- The powers of two from the step on are multiples of the step. -/
theorem one_shiftLeft_eq_mul_integerStep
    {power : Nat}
    (wide : size.log2 - 52 ≤ power) :
    1 <<< power = 1 <<< (power - (size.log2 - 52)) * integerStep size := by
  rw [integerStep, Nat.one_shiftLeft, Nat.one_shiftLeft, Nat.one_shiftLeft, ← Nat.pow_add,
    Nat.sub_add_cancel wide]

/-- Rounding does not cross the power of two below an integer. -/
theorem one_shiftLeft_le_roundSize (positive : size ≠ 0) : 1 <<< size.log2 ≤ roundSize size := by
  have multiple := one_shiftLeft_eq_mul_integerStep (Nat.sub_le size.log2 52)
  have below := one_shiftLeft_log2_le positive
  rw [multiple] at below ⊢
  exact Nat.mul_le_mul_right _ (le_roundHalfEven (integerStep_pos size) below)

/-- Rounding does not cross the power of two above an integer. -/
theorem roundSize_le_one_shiftLeft (size : Nat) : roundSize size ≤ 1 <<< (size.log2 + 1) := by
  have wide : size.log2 - 52 ≤ size.log2 + 1 := by omega
  have multiple := one_shiftLeft_eq_mul_integerStep wide
  have above := Nat.le_of_lt (lt_one_shiftLeft_log2 size)
  rw [multiple] at above ⊢
  exact Nat.mul_le_mul_right _ (roundHalfEven_le (integerStep_pos size) above)

theorem roundSize_mono
    {smaller greater : Nat}
    (ordered : smaller ≤ greater) :
    roundSize smaller ≤ roundSize greater := by
  have above := Nat.lt_of_le_of_lt ordered (lt_one_shiftLeft_log2 greater)
  have logs : smaller.log2 < greater.log2 + 1 := log2_lt_of_lt (Nat.succ_pos _) above
  rcases Nat.lt_or_eq_of_le (Nat.le_of_lt_succ logs) with below | same
  · -- The steps differ, and a power of two that neither rounding crosses lies between the two.
    have positive : greater ≠ 0 := by
      rintro rfl
      exact Nat.not_lt_zero _ below
    calc
      roundSize smaller ≤ 1 <<< (smaller.log2 + 1) := roundSize_le_one_shiftLeft smaller
      _ ≤ 1 <<< greater.log2 := one_shiftLeft_mono below
      _ ≤ roundSize greater := one_shiftLeft_le_roundSize positive
  · rw [roundSize, roundSize, integerStep, same, ← integerStep]
    exact Nat.mul_le_mul_right _ (roundHalfEven_mono ordered _)

theorem roundSize_of_log2_le (narrow : size.log2 ≤ 52) : roundSize size = size := by
  have least : integerStep size = 1 := by
    rw [integerStep, Nat.sub_eq_zero_of_le narrow]
    rfl
  simpa [roundSize, least] using roundHalfEven_mul_self Nat.one_pos size

/-- An integer of fifty-three bits is a double, and so is the next one. -/
theorem roundSize_of_le (small : size ≤ 1 <<< 53) : roundSize size = size := by
  rcases Nat.lt_or_eq_of_le small with less | full
  · exact roundSize_of_log2_le (Nat.le_of_lt_succ (log2_lt_of_lt (by decide) less))
  · rw [full]
    decide +kernel

/-- An integer of sixty-four bits moves by no more than half a step of the greatest ones. -/
theorem roundSize_near (bounded : size ≤ 1 <<< 63) :
    roundSize size ≤ size + 512 ∧ size ≤ roundSize size + 512 := by
  rcases Nat.lt_or_eq_of_le bounded with less | full
  · have log := log2_lt_of_lt (by decide) less
    have step : integerStep size ≤ 1 <<< 10 := one_shiftLeft_mono (by omega)
    have near := roundHalfEven_mul_near (integerStep_pos size) size
    rw [← roundSize] at near
    omega
  · rw [full]
    decide +kernel

end RoundSize

section RoundInt

theorem roundInt_mono
    {smaller greater : Int}
    (ordered : smaller ≤ greater) :
    roundInt smaller ≤ roundInt greater := by
  unfold roundInt
  split_ifs with negative negative'
  · have sizes : greater.natAbs ≤ smaller.natAbs := by omega
    have := roundSize_mono sizes
    omega
  · omega
  · omega
  · have sizes : smaller.natAbs ≤ greater.natAbs := by omega
    have := roundSize_mono sizes
    omega

theorem roundInt_neg_iff {value : Int} : roundInt value < 0 ↔ value < 0 := by
  unfold roundInt
  split_ifs with negative
  · have present : value.natAbs ≠ 0 := by omega
    have := one_shiftLeft_le_roundSize present
    have := one_shiftLeft_pos value.natAbs.log2
    omega
  · omega

theorem roundInt_of_le
    {value : Int}
    (small : value.natAbs ≤ 1 <<< 53) :
    roundInt value = value := by
  rw [roundInt, roundSize_of_le small]
  split_ifs <;> omega

theorem roundInt_near
    {value : Int}
    (bounded : value.natAbs ≤ 1 <<< 63) :
    roundInt value ≤ value + 512 ∧ value ≤ roundInt value + 512 := by
  have near := roundSize_near bounded
  unfold roundInt
  split_ifs <;> omega

end RoundInt

/-! ## Integers as doubles -/

section OfInt

section Shifted

variable {size : Nat}
  (positive : size ≠ 0)
  {places : Nat}
  (enough : 52 ≤ places)

include enough

/-- The significand of a shifted integer, put back in its place, is the rounded integer. -/
theorem roundHalfEven_shiftLeft :
    roundHalfEven (size <<< places) (1 <<< (size.log2 + places - 52)) <<<
        (size.log2 + places - 52) =
      roundSize size <<< places := by
  rcases Nat.le_total size.log2 52 with narrow | wide
  · -- All bits are kept, so the shifted integer is a multiple of the divisor.
    have split : 52 - size.log2 + (size.log2 + places - 52) = places := by omega
    have whole :
        size <<< places =
          size <<< (52 - size.log2) * 1 <<< (size.log2 + places - 52) := by
      rw [← shiftLeft_eq_mul, ← Nat.shiftLeft_add, split]
    rw [roundSize_of_log2_le narrow, whole, roundHalfEven_mul_self (one_shiftLeft_pos _),
      ← shiftLeft_eq_mul]
  · have split : size.log2 + places - 52 = size.log2 - 52 + places := by omega
    have divisor : 1 <<< (size.log2 - 52 + places) = integerStep size * 1 <<< places := by
      rw [Nat.shiftLeft_add, ← integerStep, shiftLeft_eq_mul]
    rw [split, divisor, shiftLeft_eq_mul places,
      roundHalfEven_mul_right _ _ (one_shiftLeft_pos places), Nat.shiftLeft_add, roundSize,
      shiftLeft_eq_mul (size.log2 - 52), ← integerStep]

include positive

/-- The significand of a shifted integer has all its bits. -/
theorem significand_bounds :
    1 <<< 52 ≤ roundHalfEven (size <<< places) (1 <<< (size.log2 + places - 52)) ∧
      roundHalfEven (size <<< places) (1 <<< (size.log2 + places - 52)) ≤ 1 <<< 53 := by
  have filled := one_shiftLeft_pos (size.log2 + places - 52)
  have lower : 52 + (size.log2 + places - 52) = size.log2 + places := by omega
  have upper : 53 + (size.log2 + places - 52) = size.log2 + 1 + places := by omega
  constructor
  · refine le_roundHalfEven filled ?_
    rw [← shiftLeft_eq_mul, ← Nat.shiftLeft_add, lower, Nat.shiftLeft_add, shiftLeft_eq_mul,
      @shiftLeft_eq_mul size]
    exact Nat.mul_le_mul_right _ (one_shiftLeft_log2_le positive)
  · refine roundHalfEven_le filled ?_
    rw [← shiftLeft_eq_mul, ← Nat.shiftLeft_add, upper, Nat.shiftLeft_add, shiftLeft_eq_mul,
      @shiftLeft_eq_mul (1 <<< _)]
    exact Nat.mul_le_mul_right _ (Nat.le_of_lt (lt_one_shiftLeft_log2 size))

end Shifted

section Bounded

/-- The magnitude of the double nearest to an integer: below infinity, as it is laid out. -/
theorem exists_magnitudeOfRatio_one_eq
    {size : Nat}
    (bounded : size ≤ 1 <<< 63) :
    ∃ scale significand,
      magnitudeOfRatio size 1 = scale <<< 52 + significand ∧
        (scale = 0 ∨ 1 <<< 52 ≤ significand) ∧
        significand ≤ 1 <<< 53 ∧
        significand <<< scale = roundSize size <<< 1074 ∧
        scale <<< 52 + significand < infiniteMagnitude := by
  by_cases positive : size = 0
  · -- Zero has no leading bit, so it stands apart with the least scale.
    rw [positive]
    exact ⟨0, 0, by decide +kernel, .inl rfl, by decide, by decide +kernel, by decide⟩
  · have laidOut :
        magnitudeOfRatio size 1 =
          min
            ((size.log2 + 1074 - 52) <<< 52 +
              roundHalfEven (size <<< 1074) (1 <<< (size.log2 + 1074 - 52)))
            infiniteMagnitude := by
      rw [magnitudeOfRatio, Nat.div_one, log2_shiftLeft positive]
    have enough : 52 ≤ 1074 := by decide
    have log : size.log2 < 64 := log2_lt_of_lt (by decide) (by omega)
    have infinite : infiniteMagnitude = 2047 <<< 52 := rfl
    obtain ⟨lower, upper⟩ := significand_bounds positive enough
    have finite :
        (size.log2 + 1074 - 52) <<< 52 +
            roundHalfEven (size <<< 1074) (1 <<< (size.log2 + 1074 - 52)) <
          infiniteMagnitude := by
      omega
    rw [Nat.min_eq_left (Nat.le_of_lt finite)] at laidOut
    exact ⟨_, _, laidOut, .inr lower, upper, roundHalfEven_shiftLeft enough, finite⟩

variable {value : Int}
  (bounded : value.natAbs ≤ 1 <<< 63)

include bounded

theorem magnitudeOfRatio_one_lt : magnitudeOfRatio value.natAbs 1 < infiniteMagnitude := by
  obtain ⟨scale, significand, laidOut, -, -, -, finite⟩ := exists_magnitudeOfRatio_one_eq bounded
  rw [laidOut]
  exact finite

theorem magnitudeOfRatio_one_fits : magnitudeOfRatio value.natAbs 1 < 1 <<< 63 :=
  Nat.lt_trans (magnitudeOfRatio_one_lt bounded) (by decide)

theorem magnitude_ofInt : (ofInt value).magnitude = magnitudeOfRatio value.natAbs 1 :=
  magnitude_ofMagnitude (magnitudeOfRatio_one_fits bounded) _

theorem isNegative_ofInt : (ofInt value).isNegative = decide (value < 0) :=
  isNegative_ofMagnitude (magnitudeOfRatio_one_fits bounded) _

theorem isNaN_ofInt : (ofInt value).isNaN = false := by
  have finite := magnitudeOfRatio_one_lt bounded
  rw [isNaN, magnitude_ofInt bounded, decide_eq_false_iff_not]
  exact Nat.not_lt_of_gt finite

/-- An integer of sixty-four bits is taken for its rounding. -/
theorem signedUnits_ofInt : (ofInt value).signedUnits = roundInt value * (1 <<< 1074 : Nat) := by
  obtain ⟨scale, significand, laidOut, normal, small, placed, -⟩ :=
    exists_magnitudeOfRatio_one_eq bounded
  rw [← magnitude_ofInt bounded] at laidOut
  have size : (ofInt value).units = roundSize value.natAbs * 1 <<< 1074 := by
    rw [units_eq laidOut normal small, placed, shiftLeft_eq_mul]
  rw [signedUnits, isNegative_ofInt bounded, size, roundInt]
  simp only [decide_eq_true_eq]
  split_ifs
  · rw [Int.natCast_mul, Int.neg_mul]
  · rw [Int.natCast_mul]

variable {other : Int}
  (otherBounded : other.natAbs ≤ 1 <<< 63)

include otherBounded

/-- Integers are compared as doubles in the order of their roundings. -/
theorem lt_ofInt_iff_roundInt :
    (ofInt value).lt (ofInt other) = true ↔ roundInt value < roundInt other := by
  have unit : (0 : Int) < (1 <<< 1074 : Nat) := Int.natCast_pos.mpr (one_shiftLeft_pos 1074)
  rw [lt_iff (isNaN_ofInt bounded) (isNaN_ofInt otherBounded), signedUnits_ofInt bounded,
    signedUnits_ofInt otherBounded]
  exact Int.mul_lt_mul_right unit

/-- Integers are the same double exactly if they have the same rounding. -/
theorem ofInt_eq_iff_roundInt : ofInt value = ofInt other ↔ roundInt value = roundInt other := by
  constructor
  · intro same
    have unit : (1 <<< 1074 : Nat) ≠ (0 : Int) := by
      have := one_shiftLeft_pos 1074
      omega
    refine Int.eq_of_mul_eq_mul_right unit ?_
    rw [← signedUnits_ofInt bounded, ← signedUnits_ofInt otherBounded, same]
  · intro same
    have signs : value < 0 ↔ other < 0 := by
      rw [← @roundInt_neg_iff value, ← @roundInt_neg_iff other, same]
    have units : (ofInt value).signedUnits = (ofInt other).signedUnits := by
      rw [signedUnits_ofInt bounded, signedUnits_ofInt otherBounded, same]
    have magnitudes : (ofInt value).magnitude = (ofInt other).magnitude := by
      have below := @units_lt_units_iff (ofInt value) (ofInt other)
      have above := @units_lt_units_iff (ofInt other) (ofInt value)
      simp only [signedUnits, isNegative_ofInt bounded, isNegative_ofInt otherBounded,
        decide_eq_true_eq] at units
      split_ifs at units <;> omega
    rw [magnitude_ofInt bounded, magnitude_ofInt otherBounded] at magnitudes
    rw [ofInt, ofInt, ofRatio, ofRatio, magnitudes, decide_eq_decide.mpr signs]

/-- An integer is less than another as a double, unless both are the same double. -/
theorem lt_ofInt_iff :
    (ofInt value).lt (ofInt other) = true ↔ value < other ∧ ofInt value ≠ ofInt other := by
  rw [lt_ofInt_iff_roundInt bounded otherBounded, Ne, ofInt_eq_iff_roundInt bounded otherBounded]
  rcases Int.lt_or_le value other with less | notLess
  · have := roundInt_mono (Int.le_of_lt less)
    omega
  · have := roundInt_mono notLess
    omega

end Bounded

/-- Integers of at most fifty-three bits are different doubles. -/
theorem ofInt_ne_of_le
    {value other : Int}
    (different : value ≠ other)
    (small : value.natAbs ≤ 1 <<< 53)
    (otherSmall : other.natAbs ≤ 1 <<< 53) :
    ofInt value ≠ ofInt other := by
  rw [Ne, ofInt_eq_iff_roundInt (by omega) (by omega), roundInt_of_le small,
    roundInt_of_le otherSmall]
  exact different

/-- Integers of sixty-four bits further apart than the greatest doubles are different doubles. -/
theorem ofInt_ne_of_apart
    {value other : Int}
    (apart : value + 1024 < other)
    (bounded : value.natAbs ≤ 1 <<< 63)
    (otherBounded : other.natAbs ≤ 1 <<< 63) :
    ofInt value ≠ ofInt other := by
  have near := roundInt_near bounded
  have otherNear := roundInt_near otherBounded
  rw [Ne, ofInt_eq_iff_roundInt bounded otherBounded]
  omega

end OfInt

end SearchPipeline.Binary64
