import SignedRecords.Bytes.Hex
import SignedRecords.Digest.Sha1
import SignedRecords.Signable

/-!
# The keyspace

Nodes and items share one space of 160-bit numbers. The distance of two of them is their exclusive
or, read as a number; a node is near a target when the distance is small.

A mutable item lives at the digest of its key and salt, an immutable one at the digest of its
bencoded value.
-/

namespace SignedRecords

/-- A place in the keyspace: a node's id or the target of an item. -/
abbrev NodeId := BitVec 160

namespace NodeId

/-! ## 1. Octets -/

/-- The 20 octets of an id, most significant first. -/
def octets (a : NodeId) : Octets 20 := ⟨Bytes.bigEndian 20 a.toNat, Bytes.length_bigEndian _ _⟩

/-- The id of 20 octets. -/
def ofOctets (bs : Octets 20) : NodeId := BitVec.ofNat 160 (Bytes.ofBigEndian bs.toList)

/-- The 40 hexadecimal digits of an id. -/
def text (a : NodeId) : String := Hex.encode a.octets.toList

/-- The first twelve digits. -/
def summary (a : NodeId) : String := s!"NodeId({Hex.encode (a.octets.toList.take 6)})"

/-! ## 2. Distance -/

/-- The distance of two ids. -/
def distance (a b : NodeId) : BitVec 160 := a ^^^ b

/-- The number of leading bits that two ids share; all 160 when they are equal. -/
def sharedBits (a b : NodeId) : Nat := 160 - (Nat.log2 (2 * (a ^^^ b).toNat))

/-! ## 3. Targets -/

/-- Where the mutable items of a key and salt live. -/
def ofKey (key : Octets 32) (salt : Bytes) : NodeId :=
  ofOctets (Sha1.digest (key.toList ++ salt))

/-- Where an immutable item lives. -/
def ofValue (value : Bytes) : NodeId := ofOctets (Sha1.digest (bencode value))

end NodeId

end SignedRecords
