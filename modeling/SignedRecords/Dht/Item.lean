import SignedRecords.NodeId
import SignedRecords.Record.Basic

/-!
# Items

What a DHT node keeps for others. A mutable item carries its owner's key, a signature and a
sequence number, and lives at the target of key and salt; an immutable item carries none of the
three and lives at the target of its value. Items read from the network may carry any part of
them, and then hold under no target.
-/

namespace SignedRecords

/-- An item of the DHT. -/
structure Item where
  value : Bytes
  key : Option (Octets 32)
  signature : Option Bytes
  seq : Option Sequence
  salt : Bytes
  deriving DecidableEq

namespace Item

/-- An item that its owner can replace. -/
def signed (key : Octets 32) (value : Bytes) (signature : Octets 64) (seq : Sequence) : Item :=
  ⟨value, some key, some signature.toList, some seq, []⟩

/-- An item that nobody can replace. -/
def plain (value : Bytes) : Item := ⟨value, none, none, none, []⟩

/-- Whether the item has an owner. -/
def isMutable (i : Item) : Bool := i.key.isSome

/-- Where the item lives. -/
def target (i : Item) : NodeId :=
  match i.key with
  | some key => NodeId.ofKey key i.salt
  | none => NodeId.ofValue i.value

/-- Whether the item is well formed: the value fits, and key, signature and sequence number are
    either all there with a signature that holds, or all absent. -/
def verify (i : Item) : Bool :=
  if maxValueSize < i.value.length then false
  else
    match i.key, i.signature, i.seq with
    | some key, some signature, some seq => itemSignatureHolds key i.salt seq i.value signature
    | none, none, none => true
    | _, _, _ => false

/-- Whether the item is well formed and lives at a target. -/
def holdsAt (i : Item) (target : NodeId) : Bool := i.target == target && i.verify

end Item

/-- The item that announces a record. -/
def Record.item (r : Record) : Item := Item.signed r.key r.value r.signature r.sequence

end SignedRecords
