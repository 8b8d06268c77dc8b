import SearchPipeline.Binary64.Basic
import Mathlib.Algebra.Order.Ring.Int

/-!
# The order of doubles

The magnitude of a double holds a significand and a scale, and stands for a number of units, the
least positive double.  Both grow together, so doubles that are numbers are in the order of their
units, with their signs.
-/

namespace SearchPipeline.Binary64

/-! ## Magnitudes and units -/

section Units

variable {number : Binary64}

/-- A magnitude holds a significand and its scale; a carry out of the significand is a scale. -/
theorem units_eq
    {scale significand : Nat}
    (packed : number.magnitude = scale <<< 52 + significand)
    (normal : scale = 0 ∨ 1 <<< 52 ≤ significand)
    (small : significand ≤ 1 <<< 53) :
    number.units = significand <<< scale := by
  have own : number.scale = number.magnitude >>> 52 - 1 := rfl
  have kept : number.significand = number.magnitude - number.scale <<< 52 := rfl
  rw [units]
  rcases Nat.lt_or_eq_of_le small with less | full
  · -- The leading bit stands in the exponent field, so the field is one more than the scale.
    have same : number.scale = scale := by omega
    have whole : number.significand = significand := by omega
    rw [same, whole]
  · have next : number.scale = scale + 1 := by omega
    have half : significand = 2 * number.significand := by omega
    rw [next, half, Nat.shiftLeft_succ_inside]

theorem exists_units_eq (number : Binary64) :
    ∃ scale significand,
      number.magnitude = scale <<< 52 + significand ∧
        (scale = 0 ∨ 1 <<< 52 ≤ significand) ∧
        significand < 1 <<< 53 ∧
        number.units = significand <<< scale := by
  have own : number.scale = number.magnitude >>> 52 - 1 := rfl
  have kept : number.significand = number.magnitude - number.scale <<< 52 := rfl
  exact ⟨number.scale, number.significand, by omega, by omega, by omega, rfl⟩

theorem units_lt_units
    {left right : Binary64}
    (smaller : left.magnitude < right.magnitude) :
    left.units < right.units := by
  obtain ⟨scale, significand, leftPacked, leftNormal, leftSmall, leftUnits⟩ :=
    left.exists_units_eq
  obtain ⟨scale', significand', rightPacked, rightNormal, rightSmall, rightUnits⟩ :=
    right.exists_units_eq
  rw [leftUnits, rightUnits, Nat.shiftLeft_eq, Nat.shiftLeft_eq]
  rcases Nat.lt_trichotomy scale scale' with below | same | above
  · -- A greater scale comes with a leading bit, which outweighs all bits of a smaller one.
    have normal : 1 <<< 52 ≤ significand' := by omega
    calc
      significand * 2 ^ scale < 1 <<< 53 * 2 ^ scale :=
        Nat.mul_lt_mul_of_pos_right leftSmall (Nat.two_pow_pos scale)
      _ = 1 <<< 52 * 2 ^ (scale + 1) := by rw [Nat.pow_succ]; omega
      _ ≤ significand' * 2 ^ scale' :=
        Nat.mul_le_mul normal (Nat.pow_le_pow_right (by decide) below)
  · subst same
    exact Nat.mul_lt_mul_of_pos_right (by omega) (Nat.two_pow_pos scale)
  · omega

theorem units_congr
    {left right : Binary64}
    (same : left.magnitude = right.magnitude) :
    left.units = right.units := by
  have scales : left.scale = right.scale := by
    rw [Binary64.scale, Binary64.scale, same]
  have significands : left.significand = right.significand :=
    congrArg₂ (· - · <<< 52) same scales
  exact congrArg₂ (· <<< ·) significands scales

/-- The greater a magnitude, the more units it stands for. -/
theorem units_lt_units_iff {left right : Binary64} :
    left.units < right.units ↔ left.magnitude < right.magnitude := by
  refine ⟨fun less => ?_, units_lt_units⟩
  by_contra notSmaller
  rcases Nat.lt_or_eq_of_le (Nat.le_of_not_lt notSmaller) with greater | same
  · exact Nat.lt_asymm less (units_lt_units greater)
  · exact Nat.ne_of_gt less (units_congr same)

theorem units_eq_zero_iff : number.units = 0 ↔ number.magnitude = 0 := by
  have order := @units_lt_units_iff zero number
  have none : zero.units = 0 := by rfl
  have least : zero.magnitude = 0 := by rfl
  omega

end Units

/-! ## Signs -/

/-- A double in units of the least positive one, its sign with it. -/
def signedUnits (number : Binary64) : Int :=
  if number.isNegative then -number.units else number.units

/-- Doubles are in the order of their units. -/
theorem lt_iff
    {left right : Binary64}
    (leftNumber : left.isNaN = false)
    (rightNumber : right.isNaN = false) :
    left.lt right = true ↔ left.signedUnits < right.signedUnits := by
  have places : left.lt right = true ↔ left.place < right.place := by
    simp [lt, leftNumber, rightNumber]
  have order := @units_lt_units_iff left right
  have reverse := @units_lt_units_iff right left
  have leftZero := @units_eq_zero_iff left
  have rightZero := @units_eq_zero_iff right
  rw [places, place, place, signedUnits, signedUnits]
  split_ifs <;> omega

section OfMagnitude

variable {magnitude : Nat}
  (fits : magnitude < 1 <<< 63)

include fits

theorem toNat_bits_ofMagnitude (negative : Bool) :
    (ofMagnitude negative magnitude).bits.toNat =
      (if negative then 1 <<< 63 else 0) + magnitude := by
  rw [ofMagnitude, UInt64.toNat_ofNat']
  apply Nat.mod_eq_of_lt
  split <;> omega

theorem magnitude_ofMagnitude (negative : Bool) :
    (ofMagnitude negative magnitude).magnitude = magnitude := by
  rw [Binary64.magnitude, toNat_bits_ofMagnitude fits]
  cases negative
  · rw [if_neg Bool.false_ne_true, Nat.zero_add, Nat.mod_eq_of_lt fits]
  · rw [if_pos rfl, Nat.add_mod_left, Nat.mod_eq_of_lt fits]

theorem isNegative_ofMagnitude (negative : Bool) :
    (ofMagnitude negative magnitude).isNegative = negative := by
  rw [isNegative, toNat_bits_ofMagnitude fits]
  cases negative
  · simp only [Bool.false_eq_true, if_false, decide_eq_false_iff_not]
    omega
  · simp

end OfMagnitude

end SearchPipeline.Binary64
