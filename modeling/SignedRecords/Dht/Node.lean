import SignedRecords.Dht.ItemStore
import SignedRecords.Dht.Message.Basic
import SignedRecords.Dht.RoutingTable

/-!
# Nodes

A node answers requests: it records the sender under the address the message came from, and then
answers from its routing table and its items. Responses are recorded but not answered.
-/

namespace SignedRecords

/-- A node of the DHT. -/
structure Node where
  /-- The node as it shows itself. -/
  self : Peer
  routing : RoutingTable
  items : ItemStore
  /-- The most nodes of a reply. -/
  k : Nat

namespace Node

/-- A node that knows nothing. -/
def fresh (self : Peer) (bucketSize k nodeTtl itemTtl : Nat) : Node :=
  ⟨self, .empty self.id bucketSize nodeTtl, .empty itemTtl, k⟩

/-- The node after it heard from the sender of a message. -/
def heard (node : Node) (now : Stamp) (source : Address) (m : Message) : Node :=
  { node with routing := (node.routing.update { m.sender with addr := source } now).1 }

/-- The nodes of a reply about a target. -/
def closer (node : Node) (target : NodeId) : List Peer := node.routing.nearest target node.k

/-- Answers a message that came from an address. -/
def handle (node : Node) (now : Stamp) (source : Address) (m : Message) : Node × Option Message :=
  let node := node.heard now source m
  match m with
  | .ping _ i => (node, some (.pong node.self i))
  | .findNode _ target i => (node, some (.foundNodes node.self (node.closer target) i))
  | .get _ target known i =>
    (node, some (.got node.self (node.items.get target known now) (node.closer target) i))
  | .put _ item i =>
    match node.items.put item now with
    | .ok items => ({ node with items }, some (.stored node.self true none i))
    | .error e => (node, some (.stored node.self false (some e.message) i))
  | _ => (node, none)

/-- Sweeps out expired nodes and items and counts both. -/
def sweep (node : Node) (now : Stamp) : Node × Nat × Nat :=
  let (routing, nodes) := node.routing.removeExpired now
  let (items, count) := node.items.removeExpired now
  ({ node with routing, items }, nodes, count)

end Node

end SignedRecords
