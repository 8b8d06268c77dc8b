import SearchPipeline.Json.Number
import SearchPipeline.Json.Value
import SearchPipeline.Proofs.Digits

/-!
# The text of a number

A number that is written with sound digits is scanned back to its parts, whatever
ends it.  Integers and finite doubles are written so.
-/

namespace SearchPipeline

namespace Json.NumberText

/-- At least one character, and none but digits. -/
def IsDigits (digits : List Char) : Prop :=
  digits ≠ [] ∧ ∀ char ∈ digits, char.isDigit = true

theorem isDigits_toDigits
    (number : Nat) :
    IsDigits (Nat.toDigits 10 number) :=
  ⟨Nat.toDigits_ne_nil, Binary64.isDigit_toDigits number⟩

/-- The parts of a number as they have to be. -/
structure IsSound (text : NumberText) : Prop where
  whole : IsDigits text.whole
  /-- A first digit zero stands alone. -/
  first : text.whole.head? = some '0' → text.whole = ['0']
  fraction : ∀ digits ∈ text.fraction, IsDigits digits
  exponent : ∀ part ∈ text.exponent, IsDigits part.2

/-- The characters of a fraction, which may be absent. -/
def fractionChars : Option (List Char) → List Char
  | none => []
  | some digits => '.' :: digits

/-- The characters of an exponent, which may be absent. -/
def exponentChars : Option (Bool × List Char) → List Char
  | none => []
  | some (negative, digits) => 'e' :: (if negative then '-' else '+') :: digits

/-- The characters of a number. -/
def chars (text : NumberText) : List Char :=
  (if text.negative then ['-'] else []) ++ text.whole ++ fractionChars text.fraction ++
    exponentChars text.exponent

/-- Nothing that would belong to a number stands at the front. -/
def EndsNumber (rest : List Char) : Prop :=
  ∀ char ∈ rest.head?, char.isDigit = false ∧ char ≠ '.' ∧ char ≠ 'e' ∧ char ≠ 'E'

section Scanning

variable {rest : List Char}

theorem takeWhile_digits
    {digits : List Char}
    (digital : ∀ char ∈ digits, char.isDigit = true)
    (ended : ∀ char ∈ rest.head?, char.isDigit = false) :
    (digits ++ rest).takeWhile Char.isDigit = digits := by
  rw [List.takeWhile_append_of_pos digital]
  cases rest with
  | nil => simp
  | cons char rest => simp [ended char rfl]

theorem dropWhile_digits
    {digits : List Char}
    (digital : ∀ char ∈ digits, char.isDigit = true)
    (ended : ∀ char ∈ rest.head?, char.isDigit = false) :
    (digits ++ rest).dropWhile Char.isDigit = rest := by
  rw [List.dropWhile_append_of_pos digital]
  cases rest with
  | nil => rfl
  | cons char rest => simp [ended char rfl]

theorem scanExponent?_exponentChars
    {exponent : Option (Bool × List Char)}
    (sound : ∀ part ∈ exponent, IsDigits part.2)
    (ended : EndsNumber rest) :
    scanExponent? (exponentChars exponent ++ rest) = some (exponent, rest) := by
  cases exponent with
  | none =>
      cases rest with
      | nil => rfl
      | cons char rest =>
          obtain ⟨-, -, notSmall, notLarge⟩ := ended char rfl
          simp [exponentChars, scanExponent?, notSmall, notLarge]
  | some part =>
      rcases part with ⟨negative, digits⟩
      obtain ⟨nonempty, digital⟩ := sound _ rfl
      have taken := takeWhile_digits digital fun char member => (ended char member).1
      have dropped := dropWhile_digits digital fun char member => (ended char member).1
      cases negative with
      | true => simp [exponentChars, scanExponent?, taken, dropped, nonempty]
      | false => simp [exponentChars, scanExponent?, taken, dropped, nonempty]

theorem scanFraction?_fractionChars
    {fraction : Option (List Char)}
    (sound : ∀ digits ∈ fraction, IsDigits digits)
    (ended : ∀ char ∈ rest.head?, char.isDigit = false ∧ char ≠ '.') :
    scanFraction? (fractionChars fraction ++ rest) = some (fraction, rest) := by
  cases fraction with
  | none =>
      cases rest with
      | nil => rfl
      | cons char rest =>
          have noPoint : char ≠ '.' := (ended char rfl).2
          simp [fractionChars, scanFraction?, noPoint]
  | some digits =>
      obtain ⟨nonempty, digital⟩ := sound _ rfl
      have taken := takeWhile_digits digital fun char member => (ended char member).1
      have dropped := dropWhile_digits digital fun char member => (ended char member).1
      simp [fractionChars, scanFraction?, taken, dropped, nonempty]

theorem head?_exponentChars
    (exponent : Option (Bool × List Char))
    (ended : EndsNumber rest) :
    ∀ char ∈ (exponentChars exponent ++ rest).head?, char.isDigit = false ∧ char ≠ '.' := by
  intro char first
  cases exponent with
  | none => exact ⟨(ended char first).1, (ended char first).2.1⟩
  | some part =>
      rw [← Option.some.inj first]
      decide

theorem head?_fractionChars
    (fraction : Option (List Char))
    (ended : ∀ char ∈ rest.head?, char.isDigit = false ∧ char ≠ '.') :
    ∀ char ∈ (fractionChars fraction ++ rest).head?, char.isDigit = false := by
  intro char first
  cases fraction with
  | none => exact (ended char first).1
  | some digits =>
      rw [← Option.some.inj first]
      decide

theorem scanUnsigned?_chars
    {text : NumberText}
    (sound : text.IsSound)
    (ended : EndsNumber rest) :
    scanUnsigned? text.negative
        (text.whole ++ (fractionChars text.fraction ++ (exponentChars text.exponent ++ rest))) =
      some (text, rest) := by
  rcases text with ⟨negative, whole, fraction, exponent⟩
  have afterExponent := scanExponent?_exponentChars sound.exponent ended
  have afterFraction :=
    scanFraction?_fractionChars sound.fraction (head?_exponentChars exponent ended)
  have endsWhole := head?_fractionChars fraction (head?_exponentChars exponent ended)
  obtain ⟨nonempty, digital⟩ := sound.whole
  cases whole with
  | nil => exact absurd rfl nonempty
  | cons first more =>
      have firstDigit : first.isDigit = true := digital first List.mem_cons_self
      have moreDigits : ∀ char ∈ more, char.isDigit = true :=
        fun char member => digital char (List.mem_cons_of_mem first member)
      have alone : ¬(first = '0' ∧ more ≠ []) := by
        rintro ⟨rfl, several⟩
        exact several (List.cons.inj (sound.first rfl)).2
      simp only [List.cons_append, scanUnsigned?, firstDigit, if_true,
        takeWhile_digits moreDigits endsWhole, dropWhile_digits moreDigits endsWhole, if_neg alone,
        afterFraction, afterExponent]

/-- A sound number is scanned back from its characters. -/
theorem scan?_chars
    {text : NumberText}
    (sound : text.IsSound)
    (ended : EndsNumber rest) :
    scan? (text.chars ++ rest) = some (text, rest) := by
  have scanned := scanUnsigned?_chars sound ended
  cases signed : text.negative with
  | true =>
      rw [signed] at scanned
      simpa [chars, signed, scan?] using scanned
  | false =>
      rw [signed] at scanned
      obtain ⟨nonempty, digital⟩ := sound.whole
      cases written : text.whole with
      | nil => exact absurd written nonempty
      | cons first more =>
          have noSign : first ≠ '-' := by
            rintro rfl
            rw [written] at digital
            exact absurd (digital _ List.mem_cons_self) (by decide)
          rw [written] at scanned
          simpa [chars, signed, written, scan?, noSign] using scanned

end Scanning

/-! ## Integers -/

/-- An integer as it is written. -/
def ofInt (value : Int) : NumberText where
  negative := value < 0
  whole := Nat.toDigits 10 value.natAbs
  fraction := none
  exponent := none

theorem chars_ofInt
    (value : Int) :
    (ofInt value).chars = integerText value := by
  simp [chars, ofInt, integerText, fractionChars, exponentChars]

theorem isSound_ofInt
    (value : Int) :
    (ofInt value).IsSound where
  whole := isDigits_toDigits value.natAbs
  first := Binary64.toDigits_eq_of_head
  fraction := by simp [ofInt]
  exponent := by simp [ofInt]

/-- An integer is understood as it is, up to sixty-four bits. -/
theorem value?_ofInt
    {value : Int}
    (low : -2 ^ 63 ≤ value)
    (high : value < 2 ^ 64) :
    (ofInt value).value? =
      some (if 0 ≤ value then .natural value.toNat else .negative value) := by
  have small : value.natAbs < UInt64.size := by
    simp only [UInt64.size]
    omega
  simp only [value?, ofInt, Binary64.digitsValue_toDigits, Option.isNone_none, small]
  by_cases positive : 0 ≤ value
  · have noSign : ¬value < 0 := by omega
    have same : value.natAbs = value.toNat := by omega
    simp [positive, noSign, same]
  · have signed : value < 0 := by omega
    have nonzero : value.natAbs ≠ 0 := by omega
    have bounded : value.natAbs ≤ 1 <<< 63 := by
      rw [Nat.shiftLeft_eq]
      omega
    have same : -(value.natAbs : Int) = value := by omega
    simp only [positive, signed, nonzero, bounded, same, ne_eq, not_false_iff, and_self, if_true,
      decide_true, Bool.not_true, if_false, Bool.false_eq_true]

end Json.NumberText

namespace Binary64

open Json NumberText

/-! ## Doubles -/

/-- A decimal with digits before and after a point. -/
def positionalText (negative : Bool) (decimal : Decimal) : NumberText :=
  let digits := Nat.toDigits 10 decimal.digits
  if 0 ≤ decimal.exponent then
    ⟨negative, digits ++ List.replicate decimal.exponent.toNat '0', some ['0'], none⟩
  else
    let places := (-decimal.exponent).toNat
    let filled := List.replicate (places + 1 - digits.length) '0' ++ digits
    ⟨negative, filled.take (filled.length - places), some (filled.drop (filled.length - places)),
      none⟩

/-- A decimal with one digit before the point, and an exponent. -/
def scientificText (negative : Bool) (decimal : Decimal) : NumberText :=
  let digits := Nat.toDigits 10 decimal.digits
  let exponent := decimal.exponent + (digits.length - 1 : Nat)
  ⟨negative, digits.take 1, if digits.drop 1 = [] then none else some (digits.drop 1),
    some (decide (exponent < 0), Nat.toDigits 10 exponent.natAbs)⟩

/-- A finite double as it is written in a text. -/
def numberText (number : Binary64) : NumberText :=
  let decimal := number.shortest .toEven
  let first := decimal.exponent + (Decimal.length decimal.digits - 1 : Nat)
  if doubleLayout.isPositional first then positionalText number.isNegative decimal
  else scientificText number.isNegative decimal

theorem chars_positionalText
    (negative : Bool)
    (decimal : Decimal) :
    (positionalText negative decimal).chars =
      (if negative then ['-'] else []) ++ positional true decimal := by
  by_cases whole : 0 ≤ decimal.exponent
  · simp [positionalText, positional, NumberText.chars, NumberText.fractionChars,
      NumberText.exponentChars, whole]
  · simp [positionalText, positional, NumberText.chars, NumberText.fractionChars,
      NumberText.exponentChars, whole]

theorem chars_scientificText
    (negative : Bool)
    (decimal : Decimal) :
    (scientificText negative decimal).chars =
      (if negative then ['-'] else []) ++ scientific decimal := by
  by_cases single : (Nat.toDigits 10 decimal.digits).drop 1 = []
  · simp only [scientificText, scientific, NumberText.chars, NumberText.fractionChars,
      NumberText.exponentChars, single]
    simp
  · simp only [scientificText, scientific, NumberText.chars, NumberText.fractionChars,
      NumberText.exponentChars, List.isEmpty_iff, single]
    simp

/-- The text of a finite double has the characters that are written for it. -/
theorem toList_render
    {number : Binary64}
    (finite : number.isFinite) :
    (number.render doubleLayout).toList = number.numberText.chars := by
  have real : number.isNaN = false := by
    simp only [isFinite, isNaN, decide_eq_true_eq, decide_eq_false_iff_not] at finite ⊢
    omega
  have written (placed : Bool) (decimal : Decimal) :
      (if placed then positionalText number.isNegative decimal
        else scientificText number.isNegative decimal).chars =
      (if number.isNegative then ['-'] else []) ++
        if placed then positional true decimal else scientific decimal := by
    cases placed with
    | true => exact chars_positionalText number.isNegative decimal
    | false => exact chars_scientificText number.isNegative decimal
  rw [render, real, finite, if_neg Bool.false_ne_true, if_pos rfl, String.toList_ofList]
  exact (written _ _).symm

theorem isDigits_of_length
    {digits : List Char}
    (nonempty : 0 < digits.length)
    (digital : ∀ char ∈ digits, char.isDigit = true) :
    IsDigits digits :=
  ⟨List.ne_nil_of_length_pos nonempty, digital⟩

/-- Zeros are put before digits only where there would be no digit before the point. -/
theorem length_filled_of_head
    {number places : Nat}
    (inner : 0 < places)
    {filled : List Char}
    (listed :
      List.replicate (places + 1 - (Nat.toDigits 10 number).length) '0' ++ Nat.toDigits 10 number =
        filled)
    (zero : filled.head? = some '0') :
    filled.length = places + 1 := by
  by_cases long : places + 1 ≤ (Nat.toDigits 10 number).length
  · rw [Nat.sub_eq_zero_of_le long, List.replicate_zero, List.nil_append] at listed
    rw [← listed] at zero
    have single := congrArg List.length (toDigits_eq_of_head zero)
    rw [List.length_singleton] at single
    omega
  · rw [← listed, List.length_append, List.length_replicate]
    omega

/-- Digits with a point so many places before their end. -/
theorem isSound_pointed
    {negative : Bool}
    {filled : List Char}
    {places : Nat}
    (inner : 0 < places)
    (long : places < filled.length)
    (digital : ∀ char ∈ filled, char.isDigit = true)
    (first : filled.head? = some '0' → filled.length = places + 1) :
    IsSound
      ⟨negative, filled.take (filled.length - places), some (filled.drop (filled.length - places)),
        none⟩ := by
  refine ⟨?_, ?_, ?_, by simp⟩
  · refine isDigits_of_length ?_ fun char member => digital char (List.mem_of_mem_take member)
    rw [List.length_take]
    omega
  · intro zero
    have notNone : filled.length - places ≠ 0 := by omega
    rw [List.head?_take, if_neg notNone] at zero
    have single : filled.length - places = 1 := by
      have := first zero
      omega
    rw [single, List.take_one, zero]
    rfl
  · intro fraction member
    rw [← Option.some.inj member]
    refine isDigits_of_length ?_ fun char member => digital char (List.mem_of_mem_drop member)
    rw [List.length_drop]
    omega

theorem isSound_positionalText
    {negative : Bool}
    {decimal : Decimal}
    (zero : decimal.digits = 0 → decimal.exponent ≤ 0) :
    (positionalText negative decimal).IsSound := by
  have digital := isDigit_toDigits decimal.digits
  have written : 0 < (Nat.toDigits 10 decimal.digits).length := Nat.length_toDigits_pos
  by_cases whole : 0 ≤ decimal.exponent
  · rw [positionalText, if_pos whole]
    refine ⟨?_, ?_, by simp [IsDigits], by simp⟩
    · refine isDigits_of_length (by rw [List.length_append]; omega) ?_
      rw [List.forall_mem_append]
      exact ⟨digital, isDigit_replicate_zero _⟩
    · intro first
      have alone : Nat.toDigits 10 decimal.digits = ['0'] := by
        refine toDigits_eq_of_head ?_
        cases listed : Nat.toDigits 10 decimal.digits with
        | nil => exact absurd listed Nat.toDigits_ne_nil
        | cons digit digits =>
            rw [listed] at first
            exact first
      have none : decimal.digits = 0 := by
        rw [← digitsValue_toDigits decimal.digits, alone]
        rfl
      have same : decimal.exponent.toNat = 0 := by
        have := zero none
        omega
      simp [alone, same]
  · simp only [positionalText, if_neg whole]
    have inner : 0 < (-decimal.exponent).toNat := by omega
    refine isSound_pointed inner ?_ ?_ fun first => length_filled_of_head inner rfl first
    · rw [List.length_append, List.length_replicate]
      omega
    · rw [List.forall_mem_append]
      exact ⟨isDigit_replicate_zero _, digital⟩

theorem isSound_scientificText
    (negative : Bool)
    (decimal : Decimal) :
    (scientificText negative decimal).IsSound := by
  have digital := isDigit_toDigits decimal.digits
  have written : 0 < (Nat.toDigits 10 decimal.digits).length := Nat.length_toDigits_pos
  refine ⟨?_, ?_, ?_, ?_⟩
  · refine isDigits_of_length ?_ fun char member => digital char (List.mem_of_mem_take member)
    simp only [scientificText, List.length_take]
    omega
  · intro first
    simp only [scientificText] at first ⊢
    cases listed : Nat.toDigits 10 decimal.digits with
    | nil => exact absurd listed Nat.toDigits_ne_nil
    | cons digit digits =>
        rw [listed] at first
        rw [Option.some.inj first]
        rfl
  · intro fraction member
    simp only [scientificText] at member
    split at member
    · contradiction
    · rename_i nonempty
      rw [← Option.some.inj member]
      exact ⟨nonempty, fun char member => digital char (List.mem_of_mem_drop member)⟩
  · intro exponent member
    rw [← Option.some.inj member]
    exact isDigits_toDigits _

theorem significand_pos
    {number : Binary64}
    (nonzero : number.magnitude ≠ 0) :
    0 < number.significand := by
  unfold significand scale
  generalize number.magnitude = magnitude at nonzero ⊢
  have whole : magnitude / 2 ^ 52 * 2 ^ 52 ≤ magnitude := Nat.div_mul_le_self magnitude (2 ^ 52)
  simp only [Nat.shiftRight_eq_div_pow, Nat.shiftLeft_eq, Nat.sub_mul]
  omega

/-- Zero is in no rounding interval, so it is not what a double is written as. -/
theorem digits_ne_zero_of_withDigits
    {tie : TieRule}
    {number : Binary64}
    (nonzero : number.magnitude ≠ 0)
    {count : Nat}
    {decimal : Decimal}
    (found : number.withDigits tie count = some decimal) :
    decimal.digits ≠ 0 := by
  have size := significand_pos nonzero
  have low : 0 < number.roundingInterval.1 := by
    simp only [roundingInterval, Nat.shiftLeft_eq]
    refine Nat.mul_pos ?_ (Nat.two_pow_pos _)
    split <;> omega
  unfold withDigits at found
  generalize number.roundingInterval = bounds at found low
  rcases bounds with ⟨lower, value, upper⟩
  dsimp -zeta only at found low
  extract_lets exponent up unit within floor rest nearer farther at found
  have positive : 0 < lower * up := Nat.mul_pos low (Nat.pow_pos (by decide))
  have inside : ∀ digits, within digits = true → digits ≠ 0 := by
    rintro digits accepted rfl
    clear_value up unit
    simp only [within, Nat.zero_mul] at accepted
    split at accepted
    · simp only [Bool.and_eq_true, decide_eq_true_eq] at accepted
      omega
    · simp at accepted
  clear_value exponent within nearer farther
  split at found
  · rw [← Option.some.inj found]
    exact inside nearer ‹_›
  · split at found
    · rw [← Option.some.inj found]
      exact inside farther ‹_›
    · exact nomatch found

theorem trim_digits_ne_zero
    {fuel : Nat}
    {decimal : Decimal}
    (nonzero : decimal.digits ≠ 0) :
    (decimal.trim fuel).digits ≠ 0 := by
  induction fuel generalizing decimal with
  | zero => exact nonzero
  | succ fuel induction =>
      rw [Decimal.trim]
      split
      · refine induction ?_
        simp only
        omega
      · exact nonzero

theorem shortestFrom_digits_ne_zero
    {tie : TieRule}
    {number : Binary64}
    (nonzero : number.magnitude ≠ 0)
    (count tries : Nat) :
    (shortestFrom tie number count tries).digits ≠ 0 := by
  induction tries generalizing count with
  | zero =>
      have size := significand_pos nonzero
      simp only [shortestFrom, units, Nat.shiftLeft_eq]
      exact Nat.ne_of_gt (Nat.mul_pos size (Nat.two_pow_pos _))
  | succ tries induction =>
      rw [shortestFrom]
      split
      · exact digits_ne_zero_of_withDigits nonzero ‹_›
      · exact induction (count + 1)

/-- A finite double is written with sound digits. -/
theorem isSound_numberText
    (number : Binary64) :
    number.numberText.IsSound := by
  have zero : (number.shortest .toEven).digits = 0 → (number.shortest .toEven).exponent ≤ 0 := by
    rw [shortest]
    split
    · exact fun _ => Int.le_refl 0
    · rename_i nonzero
      intro none
      exact absurd none (trim_digits_ne_zero (shortestFrom_digits_ne_zero nonzero 1 17))
  simp only [numberText]
  split
  · exact isSound_positionalText zero
  · exact isSound_scientificText number.isNegative _

/-- The text of a double has a point or an exponent, so it is read as a double. -/
theorem value?_numberText
    (number : Binary64) :
    number.numberText.value? = number.numberText.double?.map .double := by
  have marked : ¬(number.numberText.fraction.isNone ∧ number.numberText.exponent.isNone ∧
      digitsValue number.numberText.whole < UInt64.size) := by
    rintro ⟨noFraction, noExponent, -⟩
    unfold numberText at noFraction noExponent
    dsimp only at noFraction noExponent
    split at noFraction
    · unfold positionalText at noFraction
      split at noFraction <;> contradiction
    · split at noExponent
      · contradiction
      · contradiction
  rw [value?, if_neg marked]

end Binary64

end SearchPipeline
