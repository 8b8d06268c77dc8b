import SearchPipeline.Decimal128
import SearchPipeline.Proofs.Digits

/-!
# Decimals that read back

Every decimal that is read has at most thirty-four digits and an exponent in range,
and every such decimal is read back from what is written for it.
-/

namespace SearchPipeline.Decimal128

/-- A finite decimal keeps at most thirty-four digits, and its exponent is in range. -/
def InRange : Decimal128 → Prop
  | .finite _ digits exponent =>
    digits < 10 ^ maxDigits ∧ minExponent ≤ exponent ∧ exponent ≤ maxExponent
  | _ => True

/-- The exponent that the rest of a text gives, from its mark on. -/
def markedExponent? : List Char → Option Int
  | [] => some 0
  | _ :: rest =>
    let (negative, digits) := Binary64.splitSign rest
    if digits ≠ [] ∧ digits.all Char.isDigit then
      let size : Int := Binary64.digitsValue digits
      some (if negative then -size else size)
    else none

/-- The decimal with digits before and after a point and an exponent. -/
def fitted? (negative : Bool) (whole fraction : List Char) (exponent : Int) : Option Decimal128 :=
  let written := exponent - fraction.length
  if !isWrittenExponent exponent || !isWrittenExponent written then none
  else
    let stripped := (whole ++ fraction).dropWhile (· = '0')
    let digits := if stripped = [] then ['0'] else stripped
    (fitDigits? digits written).bind fun (digits, exponent) =>
      (fitExponent? digits exponent).bind fun (digits, exponent) =>
        (natural? digits).map (finite negative · exponent)

/-- Reading a finite decimal splits its text, and then fits its digits. -/
theorem finiteOfText?_eq
    (negative : Bool)
    (text : List Char) :
    finiteOfText? negative text =
      (markedExponent? (text.dropWhile (· ≠ 'e'))).bind
        (fitted? negative ((text.takeWhile (· ≠ 'e')).takeWhile (· ≠ '.'))
          (((text.takeWhile (· ≠ 'e')).dropWhile (· ≠ '.')).drop 1)) := by
  rw [finiteOfText?]
  cases text.dropWhile (· ≠ 'e') with
  | nil => rfl
  | cons mark rest =>
      simp only [markedExponent?]
      split
      · rfl
      · rfl

/-! ## What is read -/

theorem natural?_lt
    {text : List Char}
    {number : Nat}
    (read : natural? text = some number) :
    number < 10 ^ text.length := by
  have bounded (digits : List Char)
      (read : (if digits ≠ [] ∧ digits.all Char.isDigit then some (Binary64.digitsValue digits)
        else none) = some number) :
      number < 10 ^ digits.length := by
    split at read
    · rename_i digital
      rw [← Option.some.inj read]
      exact Binary64.digitsValue_lt (List.all_eq_true.mp digital.2)
    · contradiction
  cases text with
  | nil => simp [natural?] at read
  | cons first rest =>
      by_cases plus : first = '+'
      · subst plus
        refine Nat.lt_trans (bounded rest (by simpa [natural?] using read)) ?_
        rw [List.length_cons]
        exact Nat.pow_lt_pow_succ (by decide)
      · exact bounded (first :: rest) (by simpa [natural?, plus] using read)

theorem length_of_keepDigits?
    {count : Nat}
    {digits kept : List Char}
    (shortened : keepDigits? count digits = some kept) :
    kept.length = min count digits.length := by
  rw [keepDigits?] at shortened
  split at shortened
  · rw [← Option.some.inj shortened, List.length_take]
  · contradiction

theorem length_of_fitDigits?
    {digits kept : List Char}
    {exponent fitted : Int}
    (fit : fitDigits? digits exponent = some (kept, fitted)) :
    kept.length ≤ maxDigits := by
  rw [fitDigits?, Option.map_eq_some_iff] at fit
  obtain ⟨kept, shortened, same⟩ := fit
  obtain ⟨rfl, -⟩ := Prod.mk.inj same
  rw [length_of_keepDigits? shortened]
  exact Nat.min_le_left _ _

theorem inRange_of_fitExponent?
    {digits kept : List Char}
    {exponent fitted : Int}
    (short : digits.length ≤ maxDigits)
    (fit : fitExponent? digits exponent = some (kept, fitted)) :
    kept.length ≤ maxDigits ∧ minExponent ≤ fitted ∧ fitted ≤ maxExponent := by
  have ordered : minExponent ≤ maxExponent := by decide
  simp only [fitExponent?] at fit
  split at fit
  · split at fit
    · obtain ⟨rfl, rfl⟩ := Prod.mk.inj (Option.some.inj fit)
      exact ⟨short, Int.le_refl _, ordered⟩
    · split at fit
      · obtain ⟨kept, shortened, same⟩ := Option.map_eq_some_iff.mp fit
        obtain ⟨rfl, rfl⟩ := Prod.mk.inj same
        have := length_of_keepDigits? shortened
        exact ⟨by omega, Int.le_refl _, ordered⟩
      · contradiction
  · split at fit
    · split at fit
      · obtain ⟨rfl, rfl⟩ := Prod.mk.inj (Option.some.inj fit)
        exact ⟨short, ordered, Int.le_refl _⟩
      · split at fit
        · rename_i long
          obtain ⟨rfl, rfl⟩ := Prod.mk.inj (Option.some.inj fit)
          rw [List.length_append, List.length_replicate]
          exact ⟨long, ordered, Int.le_refl _⟩
        · contradiction
    · obtain ⟨rfl, rfl⟩ := Prod.mk.inj (Option.some.inj fit)
      exact ⟨short, by omega, by omega⟩

theorem inRange_of_fitted?
    {negative : Bool}
    {whole fraction : List Char}
    {exponent : Int}
    {number : Decimal128}
    (fit : fitted? negative whole fraction exponent = some number) :
    number.InRange := by
  rw [fitted?] at fit
  split at fit
  · contradiction
  · obtain ⟨⟨digits, shifted⟩, fitDigits, fit⟩ := Option.bind_eq_some_iff.mp fit
    obtain ⟨⟨kept, fitted⟩, fitExponent, fit⟩ := Option.bind_eq_some_iff.mp fit
    obtain ⟨value, read, rfl⟩ := Option.map_eq_some_iff.mp fit
    obtain ⟨short, low, high⟩ :=
      inRange_of_fitExponent? (length_of_fitDigits? fitDigits) fitExponent
    have few := Nat.pow_le_pow_right (by decide : 0 < 10) short
    exact ⟨Nat.lt_of_lt_of_le (natural?_lt read) few, low, high⟩

/-- A decimal that is read from a text is in range. -/
theorem inRange_of_ofText?
    {text : String}
    {number : Decimal128}
    (read : ofText? text = some number) :
    number.InRange := by
  rw [ofText?] at read
  split at read
  · rename_i negative rest _
    dsimp only at read
    split at read
    · rw [← Option.some.inj read]
      trivial
    · split at read
      · rw [← Option.some.inj read]
        trivial
      · rw [finiteOfText?_eq] at read
        obtain ⟨exponent, -, fit⟩ := Option.bind_eq_some_iff.mp read
        exact inRange_of_fitted? fit

theorem extractLsb'_eq_iff
    (bits : BitVec 128)
    (start length value : Nat) :
    bits.extractLsb' start length = BitVec.ofNat length value ↔
      bits.toNat / 2 ^ start % 2 ^ length = value % 2 ^ length := by
  rw [← BitVec.toNat_inj, BitVec.extractLsb'_toNat, Nat.shiftRight_eq_div_pow, BitVec.toNat_ofNat]

/-- The two bits that mark a special form are the first of the exponent in the other forms. -/
theorem inRange_ofBits
    (bits : BitVec 128) :
    (ofBits bits).InRange := by
  have room : 0 < 10 ^ maxDigits := by decide
  rw [ofBits]
  split
  · split <;> trivial
  · rename_i special
    have notAll : ¬bits.toNat / 2 ^ 123 % 2 ^ 4 = 15 :=
      mt (extractLsb'_eq_iff bits 123 4 15).mpr special
    split
    · rename_i large
      have both : bits.toNat / 2 ^ 125 % 2 ^ 2 = 3 := (extractLsb'_eq_iff bits 125 2 3).mp large
      refine ⟨room, ?_⟩
      simp only [minExponent, maxExponent, BitVec.extractLsb'_toNat, Nat.shiftRight_eq_div_pow]
      omega
    · rename_i small
      have notBoth : ¬bits.toNat / 2 ^ 125 % 2 ^ 2 = 3 :=
        mt (extractLsb'_eq_iff bits 125 2 3).mpr small
      have few : (if (bits.extractLsb' 0 113).toNat < Nat.pow 10 maxDigits then
          (bits.extractLsb' 0 113).toNat else 0) < 10 ^ maxDigits := by
        split
        · assumption
        · exact room
      refine ⟨few, ?_⟩
      simp only [minExponent, maxExponent, BitVec.extractLsb'_toNat, Nat.shiftRight_eq_div_pow]
      omega

/-- So is one that is read from its packed form. -/
theorem inRange_of_ofBytes?
    {bytes : List UInt8}
    {number : Decimal128}
    (read : ofBytes? bytes = some number) :
    number.InRange := by
  rw [ofBytes?] at read
  split at read
  · rw [← Option.some.inj read]
    exact inRange_ofBits _
  · contradiction

/-! ## What is written -/

section Written

variable {number : Nat}

/-- Zeros in front of the digits of a number are dropped, and no others. -/
theorem dropWhile_zeros
    (zeros : Nat) :
    (if (List.replicate zeros '0' ++ Nat.toDigits 10 number).dropWhile (· = '0') = [] then ['0']
      else (List.replicate zeros '0' ++ Nat.toDigits 10 number).dropWhile (· = '0')) =
      Nat.toDigits 10 number := by
  have stripped : (List.replicate zeros '0' ++ Nat.toDigits 10 number).dropWhile (· = '0') =
      (Nat.toDigits 10 number).dropWhile (· = '0') := by
    refine List.dropWhile_append_of_pos ?_
    intro char member
    rw [List.eq_of_mem_replicate member]
    rfl
  rw [stripped]
  by_cases zero : number = 0
  · subst zero
    rfl
  · have first := Binary64.head?_toDigits_ne_zero zero
    cases written : Nat.toDigits 10 number with
    | nil => exact absurd written Nat.toDigits_ne_nil
    | cons digit digits =>
        rw [written] at first
        have notZero : digit ≠ '0' := fun same => first (congrArg some same)
        simp [notZero]

theorem natural?_toDigits :
    natural? (Nat.toDigits 10 number) = some number := by
  have digital := Binary64.isDigit_toDigits number
  have value := Binary64.digitsValue_toDigits number
  cases written : Nat.toDigits 10 number with
  | nil => exact absurd written Nat.toDigits_ne_nil
  | cons digit digits =>
      rw [written] at digital value
      have noSign : digit ≠ '+' := by
        rintro rfl
        exact absurd (digital _ List.mem_cons_self) (by decide)
      simpa [natural?, noSign, value] using digital

theorem isWrittenExponent_of_inRange
    {exponent : Int}
    (low : minExponent ≤ exponent)
    (high : exponent ≤ maxExponent) :
    isWrittenExponent exponent = true := by
  have below : -(exponentBound : Int) ≤ minExponent := by decide
  have above : maxExponent < (exponentBound : Int) := by decide
  simp only [isWrittenExponent, Bool.and_eq_true, decide_eq_true_eq]
  omega

/-- Digits that are few enough are fitted as they are. -/
theorem fitted?_digits
    (negative : Bool)
    {whole fraction : List Char}
    {exponent : Int}
    {zeros : Nat}
    (written : whole ++ fraction = List.replicate zeros '0' ++ Nat.toDigits 10 number)
    (short : number < 10 ^ maxDigits)
    (low : minExponent ≤ exponent - fraction.length)
    (high : exponent - fraction.length ≤ maxExponent)
    (near : isWrittenExponent exponent = true) :
    fitted? negative whole fraction exponent =
      some (finite negative number (exponent - fraction.length)) := by
  have few : (Nat.toDigits 10 number).length ≤ maxDigits :=
    (Nat.length_toDigits_le_iff (by decide) (by decide)).mpr short
  have fitDigits (exponent : Int) : fitDigits? (Nat.toDigits 10 number) exponent =
      some (Nat.toDigits 10 number, exponent) := by
    simp [fitDigits?, keepDigits?, List.drop_of_length_le few, List.take_of_length_le few]
  have fitExponent : fitExponent? (Nat.toDigits 10 number) (exponent - fraction.length) =
      some (Nat.toDigits 10 number, exponent - fraction.length) := by
    rw [fitExponent?, if_neg (Int.not_lt.mpr low), if_neg (Int.not_lt.mpr high)]
  rw [fitted?, near, isWrittenExponent_of_inRange low high, if_neg (by decide), written]
  dsimp only
  rw [dropWhile_zeros, fitDigits, Option.bind_some, fitExponent, Option.bind_some,
    natural?_toDigits, Option.map_some]

end Written

theorem toLower_of_isDigit
    {char : Char}
    (digit : char.isDigit = true) :
    char.toLower = char := by
  simp only [Char.isDigit, Bool.and_eq_true, decide_eq_true_eq, UInt32.le_iff_toNat_le] at digit
  have small : char.val.toNat ≤ 57 := digit.2
  refine dif_neg fun upper => ?_
  have letter : 65 ≤ char.val.toNat := UInt32.le_iff_toNat_le.mp upper.1
  omega

theorem map_toLower_of_isDigit
    {digits : List Char}
    (digital : ∀ char ∈ digits, char.isDigit = true) :
    digits.map Char.toLower = digits := by
  have same : ∀ char ∈ digits, char.toLower = id char :=
    fun char member => toLower_of_isDigit (digital char member)
  rw [List.map_congr_left same, List.map_id]

section Text

/-- Digits with a point before those behind it, if there are any. -/
def mantissa (whole fraction : List Char) : List Char :=
  whole ++ if fraction = [] then [] else '.' :: fraction

variable {whole fraction : List Char}
  (wholeDigits : ∀ char ∈ whole, char.isDigit = true)
  (fractionDigits : ∀ char ∈ fraction, char.isDigit = true)

include wholeDigits fractionDigits

theorem isDigit_or_point_of_mem_mantissa :
    ∀ char ∈ mantissa whole fraction, char.isDigit = true ∨ char = '.' := by
  intro char member
  rcases List.mem_append.mp member with before | behind
  · exact Or.inl (wholeDigits char before)
  · split at behind
    · contradiction
    · rcases List.mem_cons.mp behind with point | digit
      · exact Or.inr point
      · exact Or.inl (fractionDigits char digit)

theorem map_toLower_mantissa :
    (mantissa whole fraction).map Char.toLower = mantissa whole fraction := by
  rw [mantissa, List.map_append, map_toLower_of_isDigit wholeDigits]
  split
  · rfl
  · rw [List.map_cons, map_toLower_of_isDigit fractionDigits]
    rfl

/-- The parts of a number are found in its text. -/
theorem finiteOfText?_mantissa
    (negative : Bool)
    {marked : List Char}
    (mark : ∀ char ∈ marked.head?, char = 'e') :
    finiteOfText? negative (mantissa whole fraction ++ marked) =
      (markedExponent? marked).bind (fitted? negative whole fraction) := by
  have noMark : ∀ char ∈ mantissa whole fraction, decide (char ≠ 'e') = true := by
    intro char member
    rcases isDigit_or_point_of_mem_mantissa wholeDigits fractionDigits char member with
      digit | point
    · rw [decide_eq_true_eq]
      rintro rfl
      exact absurd digit (by decide)
    · rw [point]
      rfl
  have noPoint : ∀ char ∈ whole, decide (char ≠ '.') = true := by
    intro char member
    rw [decide_eq_true_eq]
    rintro rfl
    exact absurd (wholeDigits _ member) (by decide)
  have taken :
      (mantissa whole fraction ++ marked).takeWhile (· ≠ 'e') = mantissa whole fraction := by
    rw [List.takeWhile_append_of_pos noMark]
    cases marked with
    | nil => simp
    | cons char rest => simp [mark char rfl]
  have dropped : (mantissa whole fraction ++ marked).dropWhile (· ≠ 'e') = marked := by
    rw [List.dropWhile_append_of_pos noMark]
    cases marked with
    | nil => rfl
    | cons char rest => simp [mark char rfl]
  have before : (mantissa whole fraction).takeWhile (· ≠ '.') = whole := by
    rw [mantissa, List.takeWhile_append_of_pos noPoint]
    split <;> simp
  have behind : ((mantissa whole fraction).dropWhile (· ≠ '.')).drop 1 = fraction := by
    rw [mantissa, List.dropWhile_append_of_pos noPoint]
    split <;> simp [*]
  rw [finiteOfText?_eq, taken, dropped, before, behind]

end Text

/-- The sign that is written before the digits of an exponent. -/
def exponentSign (value : Int) : List Char :=
  if 0 < value then ['+'] else if value < 0 then ['-'] else []

theorem map_toLower_exponentSign
    (value : Int) :
    (exponentSign value).map Char.toLower = exponentSign value := by
  rw [exponentSign]
  split
  · rfl
  · split <;> rfl

/-- The exponent that is written behind a mark is read back. -/
theorem markedExponent?_signed
    (mark : Char)
    (value : Int) :
    markedExponent? (mark :: (exponentSign value ++ Nat.toDigits 10 value.natAbs)) =
      some value := by
  have digits : Nat.toDigits 10 value.natAbs ≠ [] ∧
      (Nat.toDigits 10 value.natAbs).all Char.isDigit = true :=
    ⟨Nat.toDigits_ne_nil, List.all_eq_true.mpr (Binary64.isDigit_toDigits _)⟩
  rcases Int.lt_trichotomy value 0 with negative | rfl | positive
  · have notPositive : ¬0 < value := by omega
    have same : -(value.natAbs : Int) = value := by omega
    rw [exponentSign, if_neg notPositive, if_pos negative]
    simp only [markedExponent?, List.cons_append, List.nil_append, Binary64.splitSign,
      if_pos digits, Binary64.digitsValue_toDigits, if_true, same]
  · rfl
  · have same : (value.natAbs : Int) = value := by omega
    rw [exponentSign, if_pos positive]
    simp only [markedExponent?, List.cons_append, List.nil_append, Binary64.splitSign,
      if_pos digits, Binary64.digitsValue_toDigits, Bool.false_eq_true, if_false, same]

/-- The parts in which a decimal is spelled out: digits around a point, and an exponent's text. -/
structure Spells
    (digits : Nat)
    (exponent : Int)
    (whole fraction marked : List Char) :
    Prop where
  whole_ne_nil : whole ≠ []
  wholeDigits : ∀ char ∈ whole, char.isDigit = true
  fractionDigits : ∀ char ∈ fraction, char.isDigit = true
  digits_eq : ∃ zeros, whole ++ fraction = List.replicate zeros '0' ++ Nat.toDigits 10 digits
  mark : ∀ char ∈ (marked.map Char.toLower).head?, char = 'e'
  exponent_eq : markedExponent? (marked.map Char.toLower) = some (exponent + fraction.length)
  near : isWrittenExponent (exponent + fraction.length) = true

/-- A decimal that is spelled out is read as that decimal. -/
theorem Spells.ofText?_eq
    {digits : Nat}
    {exponent : Int}
    {whole fraction marked : List Char}
    (spells : Spells digits exponent whole fraction marked)
    (short : digits < 10 ^ maxDigits)
    (low : minExponent ≤ exponent)
    (high : exponent ≤ maxExponent)
    (negative : Bool) :
    ofText? (String.ofList
        ((if negative then ['-'] else []) ++ (mantissa whole fraction ++ marked))) =
      some (finite negative digits exponent) := by
  obtain ⟨first, rest, listed⟩ := List.exists_cons_of_ne_nil spells.whole_ne_nil
  have firstDigit : first.isDigit = true := spells.wholeDigits first (by simp [listed])
  have begins : mantissa whole fraction ++ marked =
      first :: (rest ++ ((if fraction = [] then [] else '.' :: fraction) ++ marked)) := by
    simp [mantissa, listed]
  have split : Binary64.splitSign
      ((if negative then ['-'] else []) ++ (mantissa whole fraction ++ marked)) =
      (negative, mantissa whole fraction ++ marked) := by
    cases negative with
    | true => rfl
    | false =>
        rw [begins]
        exact Binary64.splitSign_of_isDigit firstDigit _
  have noWord (word : String) (letter : word.toList.head?.any Char.isDigit = false) :
      String.ofList (mantissa whole fraction ++ marked.map Char.toLower) ≠ word := by
    rintro rfl
    simp [mantissa, listed, firstDigit] at letter
  have noNan := noWord "nan" (by decide)
  have noSnan := noWord "snan" (by decide)
  have noInfinity := noWord "infinity" (by decide)
  have noInf := noWord "inf" (by decide)
  obtain ⟨zeros, written⟩ := spells.digits_eq
  have same : exponent + fraction.length - fraction.length = exponent := by omega
  have fits := fitted?_digits negative written short (by rw [same]; exact low)
    (by rw [same]; exact high) spells.near
  rw [same] at fits
  rw [ofText?, String.toList_ofList, split]
  dsimp only
  rw [List.map_append, map_toLower_mantissa spells.wholeDigits spells.fractionDigits,
    if_neg (not_or.mpr ⟨noNan, noSnan⟩), if_neg (not_or.mpr ⟨noInfinity, noInf⟩),
    finiteOfText?_mantissa spells.wholeDigits spells.fractionDigits negative spells.mark,
    spells.exponent_eq, Option.bind_some, fits]

/-- Digits with a point so many places before their end spell a decimal without a mark. -/
theorem spells_pointed
    {digits zeros places : Nat}
    (inner : 0 < places)
    {filled : List Char}
    (listed : filled = List.replicate zeros '0' ++ Nat.toDigits 10 digits)
    (long : places < filled.length) :
    Spells digits (-places) (filled.take (filled.length - places))
      (filled.drop (filled.length - places)) [] := by
  have digital : ∀ char ∈ filled, char.isDigit = true := by
    rw [listed, List.forall_mem_append]
    exact ⟨Binary64.isDigit_replicate_zero _, Binary64.isDigit_toDigits digits⟩
  have whole : 0 < (filled.take (filled.length - places)).length := by
    rw [List.length_take]
    omega
  have behind : (filled.drop (filled.length - places)).length = places := by
    rw [List.length_drop]
    omega
  have balanced : -(places : Int) + places = 0 := by omega
  exact
    { whole_ne_nil := List.ne_nil_of_length_pos whole
      wholeDigits := fun char member => digital char (List.mem_of_mem_take member)
      fractionDigits := fun char member => digital char (List.mem_of_mem_drop member)
      digits_eq := ⟨zeros, by rw [List.take_append_drop, listed]⟩
      mark := by simp
      exponent_eq := by rw [behind, balanced]; rfl
      near := by rw [behind, balanced]; decide }

/-- One digit before the point and a marked exponent spell a decimal. -/
theorem spells_marked
    {digits : Nat}
    {exponent : Int}
    (short : digits < 10 ^ maxDigits)
    (low : minExponent ≤ exponent)
    (high : exponent ≤ maxExponent)
    {first : Int}
    (placed : first = exponent + ((Nat.toDigits 10 digits).length - 1 : Nat)) :
    Spells digits exponent ((Nat.toDigits 10 digits).take 1) ((Nat.toDigits 10 digits).drop 1)
      ('E' :: (exponentSign first ++ Nat.toDigits 10 first.natAbs)) := by
  have digital := Binary64.isDigit_toDigits digits
  have written : 0 < (Nat.toDigits 10 digits).length := Nat.length_toDigits_pos
  have few : (Nat.toDigits 10 digits).length ≤ maxDigits :=
    (Nat.length_toDigits_le_iff (by decide) (by decide)).mpr short
  have whole : 0 < ((Nat.toDigits 10 digits).take 1).length := by
    rw [List.length_take]
    omega
  have same : exponent + ((Nat.toDigits 10 digits).drop 1).length = first := by
    rw [List.length_drop, placed]
  have lowered : ('E' :: (exponentSign first ++ Nat.toDigits 10 first.natAbs)).map Char.toLower =
      'e' :: (exponentSign first ++ Nat.toDigits 10 first.natAbs) := by
    rw [List.map_cons, List.map_append, map_toLower_exponentSign,
      map_toLower_of_isDigit (Binary64.isDigit_toDigits _)]
    rfl
  have near : isWrittenExponent first = true := by
    have below : -(exponentBound : Int) ≤ minExponent := by decide
    have above : maxExponent + maxDigits < (exponentBound : Int) := by decide
    simp only [isWrittenExponent, Bool.and_eq_true, decide_eq_true_eq]
    omega
  exact
    { whole_ne_nil := List.ne_nil_of_length_pos whole
      wholeDigits := fun char member => digital char (List.mem_of_mem_take member)
      fractionDigits := fun char member => digital char (List.mem_of_mem_drop member)
      digits_eq := ⟨0, by rw [List.take_append_drop]; rfl⟩
      mark := by
        rw [lowered]
        simp
      exponent_eq := by
        rw [lowered, same]
        exact markedExponent?_signed 'e' first
      near := by
        rw [same]
        exact near }

/-- A finite decimal is spelled out when it is written. -/
theorem exists_spells
    {digits : Nat}
    {exponent : Int}
    (short : digits < 10 ^ maxDigits)
    (low : minExponent ≤ exponent)
    (high : exponent ≤ maxExponent) :
    ∃ whole fraction marked,
      renderFinite digits exponent = mantissa whole fraction ++ marked ∧
        Spells digits exponent whole fraction marked := by
  have written : 0 < (Nat.toDigits 10 digits).length := Nat.length_toDigits_pos
  simp only [renderFinite]
  split
  · split
    · rename_i none
      refine ⟨Nat.toDigits 10 digits, [], [], by simp [mantissa], ?_⟩
      exact
        { whole_ne_nil := Nat.toDigits_ne_nil
          wholeDigits := Binary64.isDigit_toDigits digits
          fractionDigits := by simp
          digits_eq := ⟨0, by simp⟩
          mark := by simp
          exponent_eq := by simp [markedExponent?, none]
          near := by
            rw [none]
            decide }
    · have negative : ¬0 ≤ exponent := by omega
      have inner : 0 < (-exponent).toNat := by omega
      have same : -((-exponent).toNat : Int) = exponent := by omega
      simp only [Binary64.positional, if_neg negative]
      generalize listed :
        List.replicate ((-exponent).toNat + 1 - (Nat.toDigits 10 digits).length) '0' ++
          Nat.toDigits 10 digits = filled
      have long : (-exponent).toNat < filled.length := by
        rw [← listed, List.length_append, List.length_replicate]
        omega
      have behind : filled.drop (filled.length - (-exponent).toNat) ≠ [] := by
        refine List.ne_nil_of_length_pos ?_
        rw [List.length_drop]
        omega
      have spells := spells_pointed inner listed.symm long
      rw [same] at spells
      refine ⟨_, _, [], ?_, spells⟩
      rw [mantissa, if_neg behind, List.append_nil]
  · refine ⟨_, _, _, ?_, spells_marked short low high rfl⟩
    simp [mantissa, exponentSign, List.isEmpty_iff]

/-- A decimal is read back from its text. -/
theorem ofText?_render
    {number : Decimal128}
    (inRange : number.InRange) :
    ofText? number.render = some number := by
  cases number with
  | finite negative digits exponent =>
      obtain ⟨short, low, high⟩ := inRange
      obtain ⟨whole, fraction, marked, written, spells⟩ := exists_spells short low high
      rw [render, written]
      exact spells.ofText?_eq short low high negative
  | infinity negative => cases negative <;> decide
  | nan => decide

end SearchPipeline.Decimal128
