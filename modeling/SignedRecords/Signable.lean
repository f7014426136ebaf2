import SignedRecords.Keys

/-!
# What is signed

A mutable item is signed over its salt (when there is one), its sequence number and its value, in
this order, each written as a bencoded pair:

    [4:salt<length>:<salt>]3:seqi<sequence>e1:v<length>:<value>

Lengths and sequence numbers are decimal.
-/

namespace SignedRecords

/-- A sequence number: a signed word of 64 bits. -/
abbrev Sequence := Int64

/-! ## 1. Decimal numbers -/

/-- The decimal digits of a number, as octets. -/
def decimal (n : Nat) : Bytes := (Nat.toDigits 10 n).map fun c => UInt8.ofNat c.toNat

/-- The decimal form of a sequence number, with a minus sign below zero. -/
def decimalSequence (s : Sequence) : Bytes :=
  if s.toInt < 0 then 45 :: decimal s.toInt.natAbs else decimal s.toInt.natAbs

/-! ## 2. The signed octets -/

/-- A bencoded string of octets: its length, a colon, and the octets. -/
def bencode (value : Bytes) : Bytes := decimal value.length ++ 58 :: value

/-- The octets that the signature of a mutable item covers. -/
def signable (salt : Bytes) (sequence : Sequence) (value : Bytes) : Bytes :=
  (if salt.isEmpty then [] else Bytes.ofText "4:salt" ++ bencode salt) ++
    Bytes.ofText "3:seqi" ++ decimalSequence sequence ++ Bytes.ofText "e1:v" ++ bencode value

/-! ## 3. Signing and checking -/

/-- Signs a mutable item. -/
def signItem (pair : KeyPair) (salt : Bytes) (sequence : Sequence) (value : Bytes) : Octets 64 :=
  pair.sign (signable salt sequence value)

/-- Whether a signature holds for a mutable item; octets that are no key sign nothing. -/
def itemSignatureHolds (key : Octets 32) (salt : Bytes) (sequence : Sequence) (value : Bytes)
    (signature : Bytes) : Bool :=
  match readPublicKey key.toList with
  | .error _ => false
  | .ok k => (verifySignature k (signable salt sequence value) signature).isOk

end SignedRecords
