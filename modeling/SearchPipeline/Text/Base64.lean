/-!
# Base64 text

The standard alphabet, in groups of four characters that stand for three bytes.
A last group of one or two bytes is padded with `=`, and its unused bits are
zero: every sequence of bytes has exactly one text.
-/

namespace SearchPipeline.Base64

/-- The character for a value below sixty-four. -/
def digit (value : Nat) : Char :=
  if value < 26 then Char.ofNat ('A'.toNat + value)
  else if value < 52 then Char.ofNat ('a'.toNat + (value - 26))
  else if value < 62 then Char.ofNat ('0'.toNat + (value - 52))
  else if value = 62 then '+'
  else '/'

/-- The value of a character of the alphabet. -/
def digit? (char : Char) : Option Nat :=
  if 'A' ≤ char ∧ char ≤ 'Z' then some (char.toNat - 'A'.toNat)
  else if 'a' ≤ char ∧ char ≤ 'z' then some (char.toNat - 'a'.toNat + 26)
  else if '0' ≤ char ∧ char ≤ '9' then some (char.toNat - '0'.toNat + 52)
  else if char = '+' then some 62
  else if char = '/' then some 63
  else none

/-- The character for six bits of a number: the last six, or those so many places before them. -/
def digitAt (bits place : Nat) : Char :=
  digit (bits >>> (6 * place) % 64)

/-- Writes bytes in groups of three. -/
def encode : List UInt8 → List Char
  | [] => []
  | [first] =>
    let bits := first.toNat <<< 4
    [digitAt bits 1, digitAt bits 0, '=', '=']
  | [first, second] =>
    let bits := (first.toNat <<< 8 + second.toNat) <<< 2
    [digitAt bits 2, digitAt bits 1, digitAt bits 0, '=']
  | first :: second :: third :: rest =>
    let bits := (first.toNat <<< 8 + second.toNat) <<< 8 + third.toNat
    digitAt bits 3 :: digitAt bits 2 :: digitAt bits 1 :: digitAt bits 0 :: encode rest

/-- The number whose digits, of six bits each, are the characters. -/
def bits? : List Char → Option Nat :=
  List.foldlM (fun bits char => (digit? char).map (bits <<< 6 + ·)) 0

/-- Reads bytes back; anything but the one text of some bytes is refused. -/
def decode? : List Char → Option (List UInt8)
  | [] => some []
  | [a, b, '=', '='] => do
    let bits ← bits? [a, b]
    if bits % 16 = 0 then some [UInt8.ofNat (bits >>> 4)] else none
  | [a, b, c, '='] => do
    let bits ← bits? [a, b, c]
    if bits % 4 = 0 then some [UInt8.ofNat (bits >>> 10), UInt8.ofNat (bits >>> 2)] else none
  | a :: b :: c :: d :: rest => do
    let bits ← bits? [a, b, c, d]
    let bytes ← decode? rest
    some (UInt8.ofNat (bits >>> 16) :: UInt8.ofNat (bits >>> 8) :: UInt8.ofNat bits :: bytes)
  | _ => none

end SearchPipeline.Base64
