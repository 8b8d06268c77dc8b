import SearchPipeline.Binary64.Text
import Mathlib.Algebra.Group.Int.Defs
import Mathlib.Algebra.Group.Nat.Defs

/-!
# Decimal digits

The digits that a natural number is written with are digits, do not start with a
zero unless they are one, and are read as the number they were written for.
-/

namespace SearchPipeline.Binary64

theorem digitsValue_eq_ofDigitChars
    (digits : List Char) :
    digitsValue digits = Nat.ofDigitChars 10 digits 0 := by
  simp only [digitsValue, Nat.ofDigitChars_eq_foldl, Nat.mul_comm]

@[simp]
theorem digitsValue_toDigits
    (number : Nat) :
    digitsValue (Nat.toDigits 10 number) = number := by
  rw [digitsValue_eq_ofDigitChars, Nat.ofDigitChars_ten_toDigits]

theorem isDigit_toDigits
    (number : Nat) :
    ∀ char ∈ Nat.toDigits 10 number, char.isDigit = true := by
  intro char member
  exact Nat.isDigit_of_mem_toDigits (by decide) (by decide) member

theorem head?_toDigits_ne_zero
    {number : Nat}
    (nonzero : number ≠ 0) :
    (Nat.toDigits 10 number).head? ≠ some '0' := by
  induction number using Nat.strongRecOn with
  | ind number induction =>
      rw [Nat.toDigits_eq_if (by decide)]
      split
      · rename_i small
        have checked : ∀ digit < 10, digit ≠ 0 → [Nat.digitChar digit].head? ≠ some '0' := by
          decide
        exact checked number small nonzero
      · have first := induction (number / 10) (by omega) (by omega)
        cases written : Nat.toDigits 10 (number / 10) with
        | nil => exact absurd written Nat.toDigits_ne_nil
        | cons digit digits =>
            rw [written] at first
            exact first

theorem isDigit_replicate_zero
    (count : Nat) :
    ∀ char ∈ List.replicate count '0', char.isDigit = true := by
  intro char member
  rw [List.eq_of_mem_replicate member]
  rfl

/-- Digits stand for themselves: there is no sign before them. -/
theorem splitSign_of_isDigit
    {first : Char}
    (digit : first.isDigit = true)
    (rest : List Char) :
    splitSign (first :: rest) = (false, first :: rest) := by
  have noMinus : first ≠ '-' := by
    rintro rfl
    exact absurd digit (by decide)
  have noPlus : first ≠ '+' := by
    rintro rfl
    exact absurd digit (by decide)
  simp [splitSign, noMinus, noPlus]

/-- Only a number of one digit starts with a zero. -/
theorem toDigits_eq_of_head
    {number : Nat}
    (zero : (Nat.toDigits 10 number).head? = some '0') :
    Nat.toDigits 10 number = ['0'] := by
  have same : number = 0 :=
    Decidable.byContradiction fun nonzero => head?_toDigits_ne_zero nonzero zero
  rw [same, Nat.toDigits_zero]

/-- So many digits stand for a number below that power of ten. -/
theorem digitsValue_lt
    {digits : List Char}
    (digital : ∀ char ∈ digits, char.isDigit = true) :
    digitsValue digits < 10 ^ digits.length := by
  have bounded : ∀ value : Nat,
      digits.foldl (fun value digit => value * 10 + (digit.toNat - '0'.toNat)) value <
        10 ^ digits.length * (value + 1) := by
    induction digits with
    | nil => simp
    | cons digit digits induction =>
        intro value
        have small : digit.toNat - '0'.toNat < 10 := by
          have digital := digital digit List.mem_cons_self
          simp only [Char.isDigit, Bool.and_eq_true, decide_eq_true_eq, UInt32.le_iff_toNat_le]
            at digital
          have : digit.toNat ≤ 57 := digital.2
          have : '0'.toNat = 48 := rfl
          omega
        have rest := induction (fun char member => digital char (List.mem_cons_of_mem _ member))
          (value * 10 + (digit.toNat - '0'.toNat))
        rw [List.foldl_cons, List.length_cons, Nat.pow_succ, Nat.mul_assoc]
        refine Nat.lt_of_lt_of_le rest (Nat.mul_le_mul_left _ ?_)
        omega
  simpa [digitsValue] using bounded 0

end SearchPipeline.Binary64
