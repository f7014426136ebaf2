import SignedRecords.NodeId

/-!
# What can go wrong between nodes

The causes, and one wording for each.
-/

namespace SignedRecords

/-- Why a node could not be asked or did not do what was asked. -/
inductive DhtError where
  | invalidNode (reason : String)
  | failed (reason : String)
  | timeout (reason : String)
  | rejected (reason : String)
  deriving DecidableEq, Repr

/-- The wording of an error. -/
def DhtError.message : DhtError → String
  | .invalidNode r => s!"Invalid node info: {r}"
  | .failed r => s!"DHT operation failed: {r}"
  | .timeout r => s!"Request timed out: {r}"
  | .rejected r => s!"Remote rejected request: {r}"

/-- Reads the octets of an id. -/
def NodeId.read (bs : Bytes) : Except DhtError NodeId :=
  match Octets.ofBytes? 20 bs with
  | none => .error (.invalidNode s!"Invalid length: expected 20, got {bs.length}")
  | some octets => .ok (NodeId.ofOctets octets)

end SignedRecords
