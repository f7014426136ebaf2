import SignedRecords.Text.Latin

/-!
# Hexadecimal

Two digits an octet, lower case when written and either case when read. Reading looks at the
octets of a text: an odd number of them is refused first, then the first octet that is no digit,
shown as the character of the same number between apostrophes.
-/

namespace SignedRecords.Hex

/-- The digit of a number below sixteen. -/
def digit (n : Nat) : Char :=
  if n < 10 then Char.ofNat ('0'.toNat + n) else Char.ofNat ('a'.toNat + (n - 10))

/-- The digits of a string of octets. -/
def digits (bs : Bytes) : List Char :=
  bs.flatMap fun b => [digit (b.toNat / 16), digit (b.toNat % 16)]

/-- The text of a string of octets. -/
def encode (bs : Bytes) : String := String.ofList (digits bs)

/-- Why a text is not hexadecimal. -/
inductive Error where
  /-- The text has an odd number of octets. -/
  | oddLength
  /-- The octet at this position is no digit. -/
  | invalidDigit (octet : UInt8) (position : Nat)
  deriving DecidableEq, Repr

/-- The wording of an error. -/
def Error.message : Error → String
  | .oddLength => "Odd number of digits"
  | .invalidDigit b i =>
    s!"Invalid character {Latin.quoted b} at position {i}"

/-- The value of a digit, in either case. -/
def value? (b : UInt8) : Option Nat :=
  if 48 ≤ b ∧ b ≤ 57 then some (b.toNat - 48)
  else if 97 ≤ b ∧ b ≤ 102 then some (b.toNat - 87)
  else if 65 ≤ b ∧ b ≤ 70 then some (b.toNat - 55)
  else none

/-- Reads the digits that start at position `i`, two at a time. -/
def decodeFrom (i : Nat) : Bytes → Except Error Bytes
  | [] => .ok []
  | [_] => .error .oddLength
  | a :: b :: rest =>
    match value? a, value? b with
    | none, _ => .error (.invalidDigit a i)
    | _, none => .error (.invalidDigit b (i + 1))
    | some x, some y => (decodeFrom (i + 2) rest).map (UInt8.ofNat (16 * x + y) :: ·)

/-- Reads a text of digits. -/
def decode (text : String) : Except Error Bytes :=
  let octets := Bytes.ofText text
  if octets.length % 2 = 1 then .error .oddLength else decodeFrom 0 octets

end SignedRecords.Hex
