import SearchPipeline.Text.Utf8
import Mathlib.Data.List.Lex

/-!
# The order of texts is the order of their bytes

Names are kept in the order of their characters.  As a greater character has greater
bytes at the first place where the bytes differ, this is also the order of the
names' bytes.
-/

namespace SearchPipeline.Utf8

/-- The bytes of a text. -/
def bytes (text : String) : List UInt8 :=
  text.toList.flatMap fun char => encode char.toNat

/-- Whether some bytes come before others: the first byte that differs is smaller, or missing. -/
abbrev ByteLess : List UInt8 → List UInt8 → Prop :=
  List.Lex fun left right => left.toNat < right.toNat

/-- These are the bytes that a string is stored as. -/
theorem toByteArray_eq_bytes
    (text : String) :
    text.toByteArray = (bytes text).toByteArray := by
  have same : (fun char : Char => encode char.toNat) = String.utf8EncodeChar :=
    funext encode_toNat
  rw [bytes, same, ← String.utf8Encode_toList, List.utf8Encode]

/-- A byte that is not greater decides the order, or leaves it to the bytes that follow. -/
private theorem byteLess_cons
    {left right : Nat}
    {leftBytes rightBytes : List UInt8}
    (bounded : right < 256)
    (ordered : left ≤ right)
    (following : left = right → ByteLess leftBytes rightBytes) :
    ByteLess (UInt8.ofNat left :: leftBytes) (UInt8.ofNat right :: rightBytes) := by
  rcases Nat.lt_or_eq_of_le ordered with smaller | same
  · apply List.Lex.rel
    rw [UInt8.toNat_ofNat', UInt8.toNat_ofNat']
    omega
  · subst same
    exact List.Lex.cons (following rfl)

/-- A smaller code point has smaller bytes, whatever follows. -/
theorem byteLess_encode
    {left right : Nat}
    (smaller : left < right)
    (bounded : right < 0x110000)
    (leftBytes rightBytes : List UInt8) :
    ByteLess (encode left ++ leftBytes) (encode right ++ rightBytes) := by
  unfold encode continuation
  -- A point has from one to four bytes.  Where the two have as many, the bytes go digit by digit,
  -- and a shorter one has a smaller first byte.
  split
  · split
    · exact byteLess_cons (by omega) (by omega) (by omega)
    · split
      · exact byteLess_cons (by omega) (by omega) (by omega)
      · split
        · exact byteLess_cons (by omega) (by omega) (by omega)
        · exact byteLess_cons (by omega) (by omega) (by omega)
  · split
    · rw [if_neg (by omega)]
      split
      · exact byteLess_cons (by omega) (by omega) fun first =>
          byteLess_cons (by omega) (by omega) (by omega)
      · split
        · exact byteLess_cons (by omega) (by omega) (by omega)
        · exact byteLess_cons (by omega) (by omega) (by omega)
    · split
      · rw [if_neg (by omega), if_neg (by omega)]
        split
        · exact byteLess_cons (by omega) (by omega) fun first =>
            byteLess_cons (by omega) (by omega) fun second =>
              byteLess_cons (by omega) (by omega) (by omega)
        · exact byteLess_cons (by omega) (by omega) (by omega)
      · rw [if_neg (by omega), if_neg (by omega), if_neg (by omega)]
        exact byteLess_cons (by omega) (by omega) fun first =>
          byteLess_cons (by omega) (by omega) fun second =>
            byteLess_cons (by omega) (by omega) fun third =>
              byteLess_cons (by omega) (by omega) (by omega)

theorem toNat_lt_of_char
    (char : Char) :
    char.toNat < 0x110000 := by
  have valid := char.valid
  simp only [UInt32.isValidChar, Nat.isValidChar] at valid
  simp only [Char.toNat]
  omega

theorem exists_encode_eq_cons
    (point : Nat) :
    ∃ byte others, encode point = byte :: others := by
  unfold encode
  split
  · exact ⟨_, _, rfl⟩
  · split
    · exact ⟨_, _, rfl⟩
    · split
      · exact ⟨_, _, rfl⟩
      · exact ⟨_, _, rfl⟩

theorem byteLess_flatMap
    {left right : List Char}
    (before : left < right) :
    ByteLess
      (left.flatMap fun char => encode char.toNat)
      (right.flatMap fun char => encode char.toNat) := by
  change List.Lex (· < ·) left right at before
  induction before with
  | @nil char rest =>
      obtain ⟨byte, others, equal⟩ := exists_encode_eq_cons char.toNat
      rw [List.flatMap_nil, List.flatMap_cons, equal]
      exact List.Lex.nil
  | @cons char leftRest rightRest rest induction =>
      rw [List.flatMap_cons, List.flatMap_cons]
      exact List.Lex.append_left _ induction _
  | @rel leftChar leftRest rightChar rightRest smaller =>
      rw [List.flatMap_cons, List.flatMap_cons]
      exact byteLess_encode smaller (toNat_lt_of_char rightChar) _ _

/-- A text that comes before another one does so by its bytes too. -/
theorem byteLess_bytes
    {left right : String}
    (before : left < right) :
    ByteLess (bytes left) (bytes right) :=
  byteLess_flatMap (String.lt_iff.mp before)

end SearchPipeline.Utf8
