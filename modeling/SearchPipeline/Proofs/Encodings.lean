import SearchPipeline.Bson.Reader
import SearchPipeline.Proofs.NumberText
import Mathlib.Data.Nat.Cast.Basic

/-!
# Texts within typed values

Bytes are read back from their text in groups of three, and an integer of sixty-four
bits from its digits.
-/

namespace SearchPipeline

namespace Base64

theorem digit?_digit
    {value : Nat}
    (small : value < 64) :
    digit? (digit value) = some value := by
  have checked : ∀ value < 64, digit? (digit value) = some value := by decide
  exact checked value small

theorem digit_ne_pad
    {value : Nat}
    (small : value < 64) :
    digit value ≠ '=' := by
  have checked : ∀ value < 64, digit value ≠ '=' := by decide
  exact checked value small

theorem digit?_digitAt
    (bits place : Nat) :
    digit? (digitAt bits place) = some (bits / 2 ^ (6 * place) % 64) := by
  rw [digitAt, Nat.shiftRight_eq_div_pow, digit?_digit (Nat.mod_lt _ (by decide))]

theorem digitAt_ne_pad
    (bits place : Nat) :
    digitAt bits place ≠ '=' :=
  digit_ne_pad (Nat.mod_lt _ (by decide))

/-- Reading a text of some characters is reading the number whose digits they are. -/
theorem bits?_cons_digitAt
    (before bits place : Nat)
    (rest : List Char) :
    (digitAt bits place :: rest).foldlM
        (fun bits char => (digit? char).map (bits <<< 6 + ·)) before =
      rest.foldlM (fun bits char => (digit? char).map (bits <<< 6 + ·))
        (before * 64 + bits / 2 ^ (6 * place) % 64) := by
  rw [List.foldlM_cons, digit?_digitAt, Nat.shiftLeft_eq]
  rfl

theorem bits?_two
    {bits : Nat}
    (small : bits < 2 ^ 12) :
    bits? [digitAt bits 1, digitAt bits 0] = some bits := by
  simp only [bits?, bits?_cons_digitAt, List.foldlM_nil]
  refine congrArg some ?_
  omega

theorem bits?_three
    {bits : Nat}
    (small : bits < 2 ^ 18) :
    bits? [digitAt bits 2, digitAt bits 1, digitAt bits 0] = some bits := by
  simp only [bits?, bits?_cons_digitAt, List.foldlM_nil]
  refine congrArg some ?_
  omega

theorem bits?_four
    {bits : Nat}
    (small : bits < 2 ^ 24) :
    bits? [digitAt bits 3, digitAt bits 2, digitAt bits 1, digitAt bits 0] = some bits := by
  simp only [bits?, bits?_cons_digitAt, List.foldlM_nil]
  refine congrArg some ?_
  omega

theorem ofNat_eq_byte
    {value : Nat}
    {byte : UInt8}
    (same : value % 256 = byte.toNat) :
    UInt8.ofNat value = byte := by
  rw [← UInt8.toNat_inj, UInt8.toNat_ofNat']
  exact same

theorem ofNat_shiftRight_eq_byte
    {value shift : Nat}
    {byte : UInt8}
    (same : value / 2 ^ shift % 256 = byte.toNat) :
    UInt8.ofNat (value >>> shift) = byte := by
  rw [Nat.shiftRight_eq_div_pow]
  exact ofNat_eq_byte same

/-- Bytes are read back from their text. -/
theorem decode?_encode
    (bytes : List UInt8) :
    decode? (encode bytes) = some bytes := by
  fun_induction encode bytes with
  | case1 => rfl
  | case2 first bits =>
      have bounded := first.toNat_lt
      have value : bits = first.toNat * 16 := Nat.shiftLeft_eq first.toNat 4
      have small : bits < 2 ^ 12 := by omega
      have unused : bits % 16 = 0 := by omega
      have same : UInt8.ofNat (bits >>> 4) = first :=
        ofNat_shiftRight_eq_byte (by omega)
      rw [decode?, bits?_two small]
      simp [unused, same]
  | case3 first second bits =>
      have bounded := first.toNat_lt
      have boundedSecond := second.toNat_lt
      have value : bits = (first.toNat * 256 + second.toNat) * 4 := by
        simp only [bits, Nat.shiftLeft_eq]
      have small : bits < 2 ^ 18 := by omega
      have unused : bits % 4 = 0 := by omega
      have same : UInt8.ofNat (bits >>> 10) = first :=
        ofNat_shiftRight_eq_byte (by omega)
      have sameSecond : UInt8.ofNat (bits >>> 2) = second :=
        ofNat_shiftRight_eq_byte (by omega)
      rw [decode?, bits?_three small]
      · simp [unused, same, sameSecond]
      · simp [digitAt_ne_pad]
  | case4 first second third rest bits induction =>
      have bounded := first.toNat_lt
      have boundedSecond := second.toNat_lt
      have boundedThird := third.toNat_lt
      have value : bits = (first.toNat * 256 + second.toNat) * 256 + third.toNat := by
        simp only [bits, Nat.shiftLeft_eq]
      have small : bits < 2 ^ 24 := by omega
      have same : UInt8.ofNat (bits >>> 16) = first :=
        ofNat_shiftRight_eq_byte (by omega)
      have sameSecond : UInt8.ofNat (bits >>> 8) = second :=
        ofNat_shiftRight_eq_byte (by omega)
      have sameThird : UInt8.ofNat bits = third := ofNat_eq_byte (by omega)
      rw [decode?, bits?_four small, induction]
      · simp [same, sameSecond, sameThird]
      · simp [digitAt_ne_pad]
      · simp [digitAt_ne_pad]

end Base64

/-- An identifier is read back from its digits. -/
theorem ObjectId.ofText?_render
    (identifier : ObjectId) :
    ofText? identifier.render = some identifier := by
  rcases identifier with ⟨bytes, length_eq⟩
  simp [ofText?, render, length_eq]

theorem Binary64.splitSign_integerText
    (value : Int) :
    splitSign (Json.integerText value) = (decide (value < 0), Nat.toDigits 10 value.natAbs) := by
  rw [Json.integerText]
  by_cases negative : value < 0
  · simp [negative, splitSign]
  · have digital := isDigit_toDigits value.natAbs
    cases written : Nat.toDigits 10 value.natAbs with
    | nil => exact absurd written Nat.toDigits_ne_nil
    | cons digit digits =>
        rw [written] at digital
        simp [negative, splitSign_of_isDigit (digital digit List.mem_cons_self)]

/-- An integer of so many bits is read back from its digits. -/
theorem Bson.integer?_integerText
    {bits : Nat}
    {value : Int}
    (low : -2 ^ (bits - 1) ≤ value)
    (high : value < 2 ^ (bits - 1)) :
    integer? bits (String.ofList (Json.integerText value)) = some value := by
  have digits : Nat.toDigits 10 value.natAbs ≠ [] ∧
      (Nat.toDigits 10 value.natAbs).all Char.isDigit = true :=
    ⟨Nat.toDigits_ne_nil, List.all_eq_true.mpr (Binary64.isDigit_toDigits _)⟩
  have signed :
      (if decide (value < 0) = true then -(value.natAbs : Int) else value.natAbs) = value := by
    split
    · rename_i negative
      have := of_decide_eq_true negative
      omega
    · rename_i positive
      rw [decide_eq_true_eq] at positive
      omega
  have bound : ((1 <<< (bits - 1) : Nat) : Int) = 2 ^ (bits - 1) := by
    simp [Nat.shiftLeft_eq]
  simp only [integer?, String.toList_ofList, Binary64.splitSign_integerText, if_pos digits,
    Binary64.digitsValue_toDigits, signed, bound, if_pos (And.intro low high)]

end SearchPipeline
