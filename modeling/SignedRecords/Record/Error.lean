import SignedRecords.Text.Latin
import SignedRecords.ZBase32

/-!
# What can be wrong with a record

The causes, and one wording for each.
-/

namespace SignedRecords

/-- Why a text is no record id. -/
inductive IdFault where
  /-- An octet of the text is no letter of the alphabet. -/
  | invalidCharacter (octet : UInt8)
  /-- There is no text. -/
  | empty
  /-- The letters give this many octets instead of 32. -/
  | wrongLength (length : Nat)
  deriving DecidableEq, Repr

/-- The wording of a fault. -/
def IdFault.message : IdFault → String
  | .invalidCharacter b => "invalid character '" ++ (Latin.char b).toString ++ "'"
  | .empty => "empty id"
  | .wrongLength n => s!"expected 32 bytes, got {n}"

/-- Why there is no record. -/
inductive RecordError where
  | invalidKeyLength (length : Nat)
  | valueTooLarge (length : Nat)
  | invalidSignatureLength (length : Nat)
  | missingSequence
  | invalidSignature
  /-- The octets are fewer than the header of a record. -/
  | malformedWire (length : Nat)
  | invalidId (fault : IdFault)
  deriving DecidableEq, Repr

/-- The wording of a record error. -/
def RecordError.message : RecordError → String
  | .invalidKeyLength n => s!"Invalid key length: expected 32 bytes, got {n}"
  | .valueTooLarge n => s!"Value too large: {n} bytes exceeds the 1000 byte limit"
  | .invalidSignatureLength n => s!"Invalid signature length: expected 64 bytes, got {n}"
  | .missingSequence => "Missing sequence number"
  | .invalidSignature => "Signature does not verify"
  | .malformedWire n => s!"Malformed wire record: expected at least 72 bytes, got {n}"
  | .invalidId f => s!"Invalid record id: {f.message}"

end SignedRecords
