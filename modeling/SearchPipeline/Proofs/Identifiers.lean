import SearchPipeline.Bson.Identifier
import Mathlib.Logic.Basic
import Mathlib.Tactic.SplitIfs

/-!
# Spellings of one identifier

An identifier is written with two hexadecimal digits for each of its bytes, in either case, and
a text of exactly these digits is compared as the identifier.  Every other value is compared as
it stands, also a text that merely has the shape of an identifier, so two values are taken for
each other only if they are equal or denote one identifier.
-/

namespace SearchPipeline

namespace Hex

section Digits

variable {char : Char} {value : Nat}

theorem isAscii_of_le
    {last : Char}
    (bound : char ≤ last)
    (ascii : last.toNat < 128) :
    char.toNat < 128 :=
  Nat.lt_of_le_of_lt (UInt32.le_iff_toNat_le.mp bound) ascii

theorem isAscii_of_digit?
    (read : digit? char = some value) :
    char.toNat < 128 := by
  unfold digit? at read
  split_ifs at read with decimal lower upper
  · exact isAscii_of_le decimal.2 (by decide)
  · exact isAscii_of_le lower.2 (by decide)
  · exact isAscii_of_le upper.2 (by decide)

theorem isAscii_of_toLower_eq_digit
    (small : value < 16)
    (lowered : char.toLower = digit value) :
    char.toNat < 128 := by
  unfold Char.toLower at lowered
  split_ifs at lowered with upper
  · exact isAscii_of_le upper.2 (by decide)
  · have checked : ∀ value < 16, (digit value).toNat < 128 := by decide
    rw [lowered]
    exact checked value small

theorem lt_sixteen_of_digit?
    (read : digit? char = some value) :
    value < 16 := by
  have checked : ∀ code < 128, ∀ value ∈ digit? (Char.ofNat code), value < 16 := by decide +kernel
  have bound := checked char.toNat (isAscii_of_digit? read) value
  rw [Char.ofNat_toNat] at bound
  exact bound read

/-- A digit stands, in either case, for the value for which its lower-case form is written. -/
theorem digit?_eq_some_iff
    (small : value < 16) :
    digit? char = some value ↔ char.toLower = digit value := by
  -- Either side is met by ASCII characters only, and these are finitely many.
  have checked :
      ∀ code < 128, ∀ value < 16,
        digit? (Char.ofNat code) = some value ↔ (Char.ofNat code).toLower = digit value := by
    decide +kernel
  have ascii (bound : char.toNat < 128) :
      digit? char = some value ↔ char.toLower = digit value := by
    have found := checked char.toNat bound value small
    rwa [Char.ofNat_toNat] at found
  constructor
  · intro read
    exact (ascii (isAscii_of_digit? read)).mp read
  · intro lowered
    exact (ascii (isAscii_of_toLower_eq_digit small lowered)).mpr lowered

end Digits

/-- Two more digits are one more byte, the high digit first. -/
theorem decode?_cons_cons_eq_some_iff
    {high low : Char}
    {rest : List Char}
    {byte : UInt8}
    {bytes : List UInt8} :
    decode? (high :: low :: rest) = some (byte :: bytes) ↔
      digit? high = some (byte.toNat / 16) ∧ digit? low = some (byte.toNat % 16) ∧
        decode? rest = some bytes := by
  rw [decode?]
  constructor
  · intro decoded
    split at decoded
    next highValue lowValue others highRead lowRead restRead =>
        have highSmall := lt_sixteen_of_digit? highRead
        have lowSmall := lt_sixteen_of_digit? lowRead
        injection decoded with decoded
        injection decoded with first following
        have value : byte.toNat = 16 * highValue + lowValue := by
          rw [← first, UInt8.toNat_ofNat']
          omega
        have quotient : byte.toNat / 16 = highValue := by omega
        have remainder : byte.toNat % 16 = lowValue := by omega
        rw [quotient, remainder, ← following]
        exact ⟨highRead, lowRead, restRead⟩
    next => contradiction
  · rintro ⟨highRead, lowRead, restRead⟩
    rw [highRead, lowRead, restRead]
    simp only [Nat.div_add_mod, UInt8.ofNat_toNat]

/-- Texts that are read as some bytes are, in lower case, what is written for these. -/
theorem decode?_eq_some_iff
    {text : List Char}
    {bytes : List UInt8} :
    decode? text = some bytes ↔ text.map Char.toLower = encode bytes := by
  induction bytes generalizing text with
  | nil =>
      rw [encode, List.map_eq_nil_iff]
      constructor
      · intro decoded
        exact List.length_eq_zero_iff.mp (decode?_length decoded)
      · rintro rfl
        rfl
  | cons byte bytes induction =>
      have bounded := byte.toNat_lt
      rw [encode]
      rcases text with _ | ⟨high, _ | ⟨low, rest⟩⟩
      · simp [decode?]
      · simp [decode?]
      · rw [decode?_cons_cons_eq_some_iff, induction, List.map_cons, List.map_cons,
          List.cons.injEq, List.cons.injEq, digit?_eq_some_iff (by omega),
          digit?_eq_some_iff (by omega)]

/-- Texts that are read as bytes are those of digits only, an even number of them. -/
theorem exists_decode?_eq_some_iff
    {text : List Char} :
    (∃ bytes, decode? text = some bytes) ↔
      text.length % 2 = 0 ∧ ∀ char ∈ text, isDigit char = true := by
  fun_induction decode? text with
  | case1 => simp
  | case2 char => simp
  | case3 high low rest highValue lowValue bytes restRead lowRead highRead induction =>
      obtain ⟨even, digits⟩ := induction.mp ⟨bytes, restRead⟩
      refine iff_of_true ⟨_, rfl⟩ ⟨?_, ?_⟩
      · rw [List.length_cons, List.length_cons]
        omega
      · rw [List.forall_mem_cons, List.forall_mem_cons]
        exact ⟨Option.isSome_of_eq_some highRead, Option.isSome_of_eq_some lowRead, digits⟩
  | case4 high low rest unread induction =>
      constructor
      · rintro ⟨_, decoded⟩
        contradiction
      · rintro ⟨even, digits⟩
        rw [List.forall_mem_cons, List.forall_mem_cons] at digits
        obtain ⟨highDigit, lowDigit, digits⟩ := digits
        obtain ⟨highValue, highRead⟩ := Option.isSome_iff_exists.mp highDigit
        obtain ⟨lowValue, lowRead⟩ := Option.isSome_iff_exists.mp lowDigit
        rw [List.length_cons, List.length_cons] at even
        obtain ⟨bytes, restRead⟩ := induction.mpr ⟨by omega, digits⟩
        exact (unread highValue lowValue bytes highRead lowRead restRead).elim

end Hex

namespace ObjectId

theorem ofText?_eq_some_iff_decode?
    {text : String}
    {identifier : ObjectId} :
    ofText? text = some identifier ↔ Hex.decode? text.toList = some identifier.bytes := by
  rw [ofText?]
  constructor
  · intro read
    split at read
    next bytes decoded =>
        obtain ⟨length_eq, same⟩ := Option.dite_none_right_eq_some.mp read
        rw [decoded, ← Option.some.inj same]
    next => contradiction
  · intro decoded
    rw [decoded]
    exact dif_pos identifier.length_eq

/-- A text is read as an identifier if it is, in lower case, what is written for that one. -/
theorem ofText?_eq_some_iff
    {text : String}
    {identifier : ObjectId} :
    ofText? text = some identifier ↔
      text.toList.map Char.toLower = identifier.render.toList := by
  rw [ofText?_eq_some_iff_decode?, Hex.decode?_eq_some_iff, render, String.toList_ofList]

/-- Texts of identifiers are those of exactly twenty-four digits. -/
theorem exists_ofText?_eq_some_iff
    {text : String} :
    (∃ identifier, ofText? text = some identifier) ↔
      text.length = 24 ∧ ∀ char ∈ text.toList, Hex.isDigit char = true := by
  rw [← String.length_toList]
  constructor
  · rintro ⟨identifier, read⟩
    have decoded := ofText?_eq_some_iff_decode?.mp read
    refine ⟨?_, (Hex.exists_decode?_eq_some_iff.mp ⟨_, decoded⟩).2⟩
    rw [Hex.decode?_length decoded, identifier.length_eq]
  · rintro ⟨long, digits⟩
    obtain ⟨bytes, decoded⟩ := Hex.exists_decode?_eq_some_iff.mpr ⟨by omega, digits⟩
    have double := Hex.decode?_length decoded
    have length_eq : bytes.length = 12 := by omega
    exact ⟨⟨bytes, length_eq⟩, ofText?_eq_some_iff_decode?.mpr decoded⟩

/-- Every text of an identifier has the shape of one. -/
theorem isShaped_of_ofText?
    {text : String}
    {identifier : ObjectId}
    (read : ofText? text = some identifier) :
    isShaped text = true := by
  obtain ⟨long, digits⟩ := exists_ofText?_eq_some_iff.mp ⟨identifier, read⟩
  rw [← String.length_toList] at long
  have filled : text.toList.isEmpty = false := by
    rw [List.isEmpty_eq_false_iff, ← List.length_pos_iff, long]
    decide
  rw [isShaped, filled, long, List.all_eq_true.mpr digits]
  rfl

end ObjectId

namespace Bson

/-- A value denotes an identifier: it is that one, or a text of its digits, in either case. -/
inductive Denotes : Bson → ObjectId → Prop
  | itself (identifier : ObjectId) : Denotes (.objectId identifier) identifier
  | digits
    {text : String}
    {identifier : ObjectId}
    (lowered : text.toList.map Char.toLower = identifier.render.toList) :
    Denotes (.string text) identifier

theorem denotes_string_iff
    {text : String}
    {identifier : ObjectId} :
    Denotes (.string text) identifier ↔ ObjectId.ofText? text = some identifier := by
  rw [ObjectId.ofText?_eq_some_iff]
  constructor
  · rintro (_ | lowered)
    exact lowered
  · exact .digits

/-- A value that denotes an identifier is compared as that one. -/
theorem Denotes.toIdentifier_eq
    {value : Bson}
    {identifier : ObjectId}
    (denotes : value.Denotes identifier) :
    value.toIdentifier = .objectId identifier := by
  cases value with
  | objectId other =>
      cases denotes
      rfl
  | string text =>
      have read := denotes_string_iff.mp denotes
      simp only [toIdentifier, ObjectId.isShaped_of_ofText? read, if_true, read]
  | _ => cases denotes

/-- A value that denotes no identifier is compared as it stands. -/
theorem toIdentifier_eq_self
    {value : Bson}
    (alone : ∀ identifier, ¬ value.Denotes identifier) :
    value.toIdentifier = value := by
  cases value with
  | string text =>
      have unread : ObjectId.ofText? text = none := by
        apply Option.eq_none_iff_forall_ne_some.mpr
        intro identifier read
        exact alone identifier (denotes_string_iff.mpr read)
      simp only [toIdentifier, unread, ite_self]
  | _ => rfl

/-- A value is compared as the identifier it denotes, or as it stands if it denotes none. -/
theorem toIdentifier_cases (value : Bson) :
    (∃ identifier, value.Denotes identifier ∧ value.toIdentifier = .objectId identifier) ∨
      (∀ identifier, ¬ value.Denotes identifier) ∧ value.toIdentifier = value := by
  by_cases denoting : ∃ identifier, value.Denotes identifier
  · obtain ⟨identifier, denotes⟩ := denoting
    exact .inl ⟨identifier, denotes, denotes.toIdentifier_eq⟩
  · have alone := not_exists.mp denoting
    exact .inr ⟨alone, toIdentifier_eq_self alone⟩

theorem toIdentifier_eq_objectId_iff
    {value : Bson}
    {identifier : ObjectId} :
    value.toIdentifier = .objectId identifier ↔ value.Denotes identifier := by
  constructor
  · intro converted
    rcases toIdentifier_cases value with ⟨other, denotes, same⟩ | ⟨-, same⟩
    · rw [same, objectId.injEq] at converted
      rwa [← converted]
    · rw [same] at converted
      rw [converted]
      exact .itself identifier
  · exact Denotes.toIdentifier_eq

/-- Only texts of twenty-four digits are compared as something else. -/
theorem toIdentifier_ne_self_iff
    {value : Bson} :
    value.toIdentifier ≠ value ↔
      ∃ text, value = .string text ∧ text.length = 24 ∧
        ∀ char ∈ text.toList, Hex.isDigit char = true := by
  constructor
  · intro changed
    rcases toIdentifier_cases value with ⟨identifier, denotes, -⟩ | ⟨-, same⟩
    · cases denotes with
      | itself => exact (changed rfl).elim
      | digits lowered =>
          have read := ObjectId.ofText?_eq_some_iff.mpr lowered
          exact ⟨_, rfl, ObjectId.exists_ofText?_eq_some_iff.mp ⟨identifier, read⟩⟩
    · exact (changed same).elim
  · rintro ⟨text, rfl, spelled⟩
    obtain ⟨identifier, read⟩ := ObjectId.exists_ofText?_eq_some_iff.mpr spelled
    rw [(denotes_string_iff.mpr read).toIdentifier_eq]
    exact Bson.noConfusion

/-- What a value is compared as is compared as it stands. -/
theorem toIdentifier_toIdentifier (value : Bson) :
    value.toIdentifier.toIdentifier = value.toIdentifier := by
  rcases toIdentifier_cases value with ⟨identifier, -, same⟩ | ⟨-, same⟩
  · rw [same]
    rfl
  · rw [same]
    exact same

/-- Two values are compared as the same if they are equal or denote one identifier. -/
theorem toIdentifier_inj_iff
    {left right : Bson} :
    left.toIdentifier = right.toIdentifier ↔
      left = right ∨ ∃ identifier, left.Denotes identifier ∧ right.Denotes identifier := by
  constructor
  · intro same
    rcases toIdentifier_cases left with ⟨identifier, denotes, leftSame⟩ | ⟨alone, leftSame⟩
    · rw [leftSame] at same
      exact .inr ⟨identifier, denotes, toIdentifier_eq_objectId_iff.mp same.symm⟩
    · rcases toIdentifier_cases right with ⟨identifier, -, rightSame⟩ | ⟨-, rightSame⟩
      · rw [rightSame] at same
        exact (alone identifier (toIdentifier_eq_objectId_iff.mp same)).elim
      · rw [leftSame, rightSame] at same
        exact .inl same
  · rintro (rfl | ⟨identifier, leftDenotes, rightDenotes⟩)
    · rfl
    · rw [leftDenotes.toIdentifier_eq, rightDenotes.toIdentifier_eq]

/--
Values are compared as the same exactly if they are equal or denote one identifier, by itself or
by a text of its digits in either case.  What denotes an identifier is compared as that one, what
comes out is compared as it stands, and only texts of exactly twenty-four digits are changed.
-/
theorem toIdentifier_conflates_spellings :
    (∀ left right : Bson,
      left.toIdentifier = right.toIdentifier ↔
        left = right ∨ ∃ identifier, left.Denotes identifier ∧ right.Denotes identifier) ∧
      (∀ value identifier, toIdentifier value = .objectId identifier ↔ value.Denotes identifier) ∧
      (∀ value : Bson, value.toIdentifier.toIdentifier = value.toIdentifier) ∧
      (∀ value : Bson, value.toIdentifier ≠ value ↔
        ∃ text, value = .string text ∧ text.length = 24 ∧
          ∀ char ∈ text.toList, Hex.isDigit char = true) ∧
      ∀ text, (∃ identifier, Denotes (.string text) identifier) ↔
        text.length = 24 ∧ ∀ char ∈ text.toList, Hex.isDigit char = true := by
  refine ⟨fun left right => toIdentifier_inj_iff,
    fun value identifier => toIdentifier_eq_objectId_iff, toIdentifier_toIdentifier,
    fun value => toIdentifier_ne_self_iff, fun text => ?_⟩
  simp only [denotes_string_iff, ObjectId.exists_ofText?_eq_some_iff]

/-- An identifier whose digits have letters among them. -/
def sampleIdentifier : ObjectId where
  bytes := [0x5F, 0x8D, 0x0D, 0x55, 0xB5, 0x47, 0x64, 0x42, 0x1B, 0x71, 0x56, 0xD9]
  length_eq := rfl

/-- Two spellings are the same; a shorter text and what stands in a list are left as they are. -/
theorem toIdentifier_conflates_spellings_sample :
    toIdentifier (.string "5F8D0D55B54764421B7156D9") =
        toIdentifier (.string "5f8d0d55b54764421b7156D9") ∧
      toIdentifier (.string "5F8D0D55") = .string "5F8D0D55" ∧
      toIdentifier (.array [.string "5F8D0D55B54764421B7156D9"]) =
        .array [.string "5F8D0D55B54764421B7156D9"] := by
  obtain ⟨conflated, -, -, changed, -⟩ := toIdentifier_conflates_spellings
  refine ⟨?_, ?_, ?_⟩
  · refine (conflated _ _).mpr (.inr ⟨sampleIdentifier, ?_, ?_⟩)
    · exact .digits (by decide)
    · exact .digits (by decide)
  · apply not_ne_iff.mp
    rw [changed]
    rintro ⟨text, same, long, -⟩
    injection same with same
    rw [← same] at long
    exact absurd long (by decide)
  · apply not_ne_iff.mp
    rw [changed]
    rintro ⟨text, same, -⟩
    exact Bson.noConfusion same

end Bson

end SearchPipeline
