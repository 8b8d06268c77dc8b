/-!
# Hexadecimal text

Bytes are written with two lower-case digits each; reading accepts both cases.
-/

namespace SearchPipeline.Hex

/-- The value of a hexadecimal digit, in either case. -/
def digit? (char : Char) : Option Nat :=
  if '0' ≤ char ∧ char ≤ '9' then some (char.toNat - '0'.toNat)
  else if 'a' ≤ char ∧ char ≤ 'f' then some (char.toNat - 'a'.toNat + 10)
  else if 'A' ≤ char ∧ char ≤ 'F' then some (char.toNat - 'A'.toNat + 10)
  else none

/-- Whether a character is a hexadecimal digit. -/
def isDigit (char : Char) : Bool :=
  (digit? char).isSome

/-- The lower-case digit for a value below sixteen. -/
def digit (value : Nat) : Char :=
  Nat.digitChar value

/-- Reads bytes from pairs of digits; an odd count or another character is refused. -/
def decode? : List Char → Option (List UInt8)
  | [] => some []
  | [_] => none
  | high :: low :: rest =>
    match digit? high, digit? low, decode? rest with
    | some high, some low, some bytes => some (UInt8.ofNat (16 * high + low) :: bytes)
    | _, _, _ => none

/-- Writes each byte as two digits, the high one first. -/
def encode : List UInt8 → List Char
  | [] => []
  | byte :: bytes => digit (byte.toNat / 16) :: digit (byte.toNat % 16) :: encode bytes

@[simp]
theorem digit?_digit
    (value : Nat)
    (small : value < 16) :
    digit? (digit value) = some value := by
  have checked : ∀ value < 16, digit? (digit value) = some value := by decide
  exact checked value small

/-- What is written for some bytes is read as these bytes. -/
@[simp]
theorem decode?_encode
    (bytes : List UInt8) :
    decode? (encode bytes) = some bytes := by
  induction bytes with
  | nil => rfl
  | cons byte bytes induction =>
      have bounded := byte.toNat_lt
      have high : digit? (digit (byte.toNat / 16)) = some (byte.toNat / 16) :=
        digit?_digit _ (by omega)
      have low : digit? (digit (byte.toNat % 16)) = some (byte.toNat % 16) :=
        digit?_digit _ (by omega)
      simp only [encode, decode?, high, low, induction]
      rw [Nat.div_add_mod, UInt8.ofNat_toNat]

/-- Each byte that is read takes two digits. -/
theorem decode?_length
    {text : List Char}
    {bytes : List UInt8}
    (decoded : decode? text = some bytes) :
    text.length = 2 * bytes.length := by
  fun_induction decode? text generalizing bytes with
  | case1 =>
      rw [← Option.some.inj decoded]
      rfl
  | case2 => contradiction
  | case3 _ _ _ _ _ _ _ _ _ induction =>
      rw [← Option.some.inj decoded, List.length_cons, List.length_cons, List.length_cons,
        induction ‹_›]
      omega
  | case4 => contradiction

/-- The number that hexadecimal digits stand for. -/
def value? : List Char → Option Nat :=
  List.foldlM (fun value char => (digit? char).map (16 * value + ·)) 0

end SearchPipeline.Hex
