import SignedRecords.Net.Address
import SignedRecords.NodeId
import SignedRecords.Time.Stamp

/-!
# Peers

What is known of another node: its id, the address it answers at, and when it was last heard
from. Two peers are the same when id and address agree, whenever they were heard from.
-/

namespace SignedRecords

/-- A node as others know it. -/
structure Peer where
  id : NodeId
  addr : Address
  lastSeen : Stamp
  deriving DecidableEq, Inhabited

namespace Peer

/-- Whether two peers have one id and one address. -/
def same (a b : Peer) : Bool := a.id == b.id && a.addr == b.addr

/-- The peer, heard from now. -/
def touched (p : Peer) (now : Stamp) : Peer := { p with lastSeen := now }

/-- Whether the peer was not heard from for longer than `ttl` milliseconds. -/
def isExpired (p : Peer) (now : Stamp) (ttl : Nat) : Bool := now.olderThan p.lastSeen ttl

/-- A short form of a peer. -/
def summary (p : Peer) : String :=
  "NodeInfo \x7b id: " ++ p.id.summary ++ ", addr: " ++ p.addr.text ++ " \x7d"

end Peer

end SignedRecords
