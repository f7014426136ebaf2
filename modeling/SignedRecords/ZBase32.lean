import SignedRecords.Bytes.Basic

/-!
# z-base-32

Octets as letters of a 32-letter alphabet: the bits are taken most significant first in groups of
five, and the last group is filled up with zero bits. There is no padding.

Reading ignores the case of ASCII letters, drops the bits that do not fill an octet, and refuses
the first octet of the text that is no letter of the alphabet, shown as the character of the same
number.
-/

namespace SignedRecords.ZBase32

/-! ## 1. The alphabet -/

/-- The letters, in the order of their values. -/
def alphabet : List Char := "ybndrfg8ejkmcpqxot1uwisza345h769".toList

/-- The letter of a group of five bits. -/
def letter (v : Nat) : Char := alphabet.getD v 'y'

/-- An octet with an ASCII capital made small. -/
def lowered (b : UInt8) : UInt8 := if 65 ≤ b ∧ b ≤ 90 then b + 32 else b

/-- The value of a letter, in either case. -/
def value? (b : UInt8) : Option Nat :=
  alphabet.findIdx? fun c => c.toNat = (lowered b).toNat

/-! ## 2. Bits -/

/-- The lowest `w` bits of a number, most significant first. -/
def bitsOf : Nat → Nat → List Bool
  | 0, _ => []
  | w + 1, n => n.testBit w :: bitsOf w n

/-- The number whose bits these are, most significant first. -/
def ofBits (bits : List Bool) : Nat :=
  bits.foldl (fun n b => 2 * n + b.toNat) 0

/-- Groups of five bits; the last one is filled up with zeros. -/
def fives : List Bool → List Nat
  | [] => []
  | [a] => [ofBits [a, false, false, false, false]]
  | [a, b] => [ofBits [a, b, false, false, false]]
  | [a, b, c] => [ofBits [a, b, c, false, false]]
  | [a, b, c, d] => [ofBits [a, b, c, d, false]]
  | a :: b :: c :: d :: e :: rest => ofBits [a, b, c, d, e] :: fives rest

/-- Groups of eight bits; bits that do not fill a group are dropped. -/
def eights : List Bool → List Nat
  | a :: b :: c :: d :: e :: f :: g :: h :: rest => ofBits [a, b, c, d, e, f, g, h] :: eights rest
  | _ => []

/-! ## 3. Writing and reading -/

/-- The letters of a string of octets. -/
def letters (bs : Bytes) : List Char :=
  (fives (bs.flatMap fun b => bitsOf 8 b.toNat)).map letter

/-- The text of a string of octets. -/
def encode (bs : Bytes) : String := String.ofList (letters bs)

/-- The values of the letters, or the first octet that is no letter. -/
def values : Bytes → Except UInt8 (List Nat)
  | [] => .ok []
  | b :: rest =>
    match value? b with
    | none => .error b
    | some v => (values rest).map (v :: ·)

/-- Reads letters; the error is the first octet that is no letter. -/
def decodeBytes (text : Bytes) : Except UInt8 Bytes :=
  (values text).map fun vs => (eights (vs.flatMap (bitsOf 5))).map UInt8.ofNat

/-- Reads a text. -/
def decode (text : String) : Except UInt8 Bytes := decodeBytes (Bytes.ofText text)

end SignedRecords.ZBase32
