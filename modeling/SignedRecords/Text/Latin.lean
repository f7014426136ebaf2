import SignedRecords.Bytes.Basic

/-!
# Octets as characters

An octet that is no part of a well-formed text is shown as the character of the same number.
Between apostrophes such a character stands for itself if it prints and is neither apostrophe nor
backslash; a few others have a letter behind a backslash, and the rest are given by number.
-/

namespace SignedRecords.Latin

/-- The character with the number of an octet. -/
def char (b : UInt8) : Char := Char.ofNat b.toNat

/-- Whether the character of an octet prints: neither control characters do, nor the blank that
    holds words together, nor the hyphen that shows only at the end of a line. -/
def prints (b : UInt8) : Bool :=
  (32 ≤ b && b ≤ 126) || (161 ≤ b && b ≠ 173)

/-- The letter behind the backslash that stands for an octet. -/
def letter? (b : UInt8) : Option Char :=
  match b.toNat with
  | 0 => some '0'
  | 9 => some 't'
  | 10 => some 'n'
  | 13 => some 'r'
  | 39 => some '\x27'
  | 92 => some '\\'
  | _ => none

/-- The character of an octet as it stands between apostrophes. -/
def escaped (b : UInt8) : List Char :=
  match letter? b with
  | some l => ['\\', l]
  | none =>
    if prints b then [char b]
    else ['\\', 'u', '\x7b'] ++ Nat.toDigits 16 b.toNat ++ ['\x7d']

/-- The character of an octet between apostrophes. -/
def quoted (b : UInt8) : String := String.ofList ('\x27' :: escaped b ++ ['\x27'])

end SignedRecords.Latin
