/-!
# The bytes of text

A code point has one to four bytes.  Codes that are half of a surrogate pair are
no characters, but have three bytes like their neighbours.
-/

namespace SearchPipeline.Utf8

/-- A byte after the first, which carries six bits. -/
def continuation (bits : Nat) : UInt8 :=
  UInt8.ofNat (0x80 + bits % 64)

/-- The bytes of a code point. -/
def encode (point : Nat) : List UInt8 :=
  if point < 0x80 then [UInt8.ofNat point]
  else if point < 0x800 then [UInt8.ofNat (0xC0 + point / 64), continuation point]
  else if point < 0x10000 then
    [UInt8.ofNat (0xE0 + point / 4096), continuation (point / 64), continuation point]
  else
    [UInt8.ofNat (0xF0 + point / 262144), continuation (point / 4096),
      continuation (point / 64), continuation point]

/-- A character has the bytes that it has in a string. -/
theorem encode_toNat
    (char : Char) :
    encode char.toNat = String.utf8EncodeChar char := by
  have bounded : char.toNat < 0x110000 := by
    have := char.valid
    simp only [UInt32.isValidChar, Nat.isValidChar] at this
    simp only [Char.toNat]
    omega
  have same : char.val.toNat = char.toNat := rfl
  simp only [encode, continuation, String.utf8EncodeChar, same, Nat.add_comm (_ % _),
    ← Nat.lt_succ_iff, Nat.succ_eq_add_one, Nat.reduceAdd]
  split
  · rfl
  · split
    · rw [Nat.mod_eq_of_lt (by omega : char.toNat / 64 < 32)]
    · split
      · rw [Nat.mod_eq_of_lt (by omega : char.toNat / 4096 < 16)]
      · rw [Nat.mod_eq_of_lt (by omega : char.toNat / 262144 < 8)]

end SearchPipeline.Utf8
