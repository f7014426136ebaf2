import SignedRecords.Bytes.Fixed
import SignedRecords.Record.Error
import SignedRecords.Signable

/-!
# Responses

What a lookup answers: a value, its sequence number and the signature of both, without the key.
The same octets serve as the stored and the cached form of a record:

    signature (64) ‖ sequence (8, most significant first) ‖ value
-/

namespace SignedRecords

/-- The largest value of a record, in octets. -/
def maxValueSize : Nat := 1000

/-- The octets before the value. -/
def headerSize : Nat := 72

/-- An answer of a lookup. -/
structure Response where
  value : Bytes
  sequence : Sequence
  signature : Octets 64
  deriving DecidableEq

namespace Response

/-- The octets of a response. -/
def toBytes (r : Response) : Bytes :=
  r.signature.toList ++ Bytes.bigEndian 8 r.sequence.toUInt64.toNat ++ r.value

/-- Reads a response: the header has to be there, and the value must not be too large. -/
def ofBytes (bs : Bytes) : Except RecordError Response :=
  if h : bs.length < headerSize then .error (.malformedWire bs.length)
  else if maxValueSize < bs.length - headerSize then
    .error (.valueTooLarge (bs.length - headerSize))
  else
    .ok
      { value := bs.drop headerSize
        sequence := (UInt64.ofNat (Bytes.ofBigEndian ((bs.drop 64).take 8))).toInt64
        signature := ⟨bs.take 64, by
          simp only [headerSize, Nat.not_lt] at h
          simp only [List.length_take]
          omega⟩ }

end Response

end SignedRecords
