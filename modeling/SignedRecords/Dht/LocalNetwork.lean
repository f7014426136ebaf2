import SignedRecords.Dht.Config
import SignedRecords.Dht.Error
import SignedRecords.Dht.Node

/-!
# Networks in one process

A DHT whose nodes live in one process and get their messages by direct calls. The nodes have
addresses on the local host, one port after another, and know each other: new nodes are entered
into all tables, and all nodes into the tables of the new ones. A client is a node as well, which
enters the nodes that were there before it. The whole network can be cut off, and puts to some
targets can be made to fail.

The nodes have no order of their own. Where a node enters all others, any order of theirs may be
the one in which it does so: a `Listing` says which. The program lists them as they were added.
-/

namespace SignedRecords

/-- A network in one process. -/
structure LocalNetwork where
  config : DhtConfig
  nodes : List Node
  /-- The targets that no node takes items for. -/
  failing : List NodeId
  offline : Bool
  /-- The port of the next node. -/
  nextPort : UInt16

/-- In which order a node hears of others. -/
structure Listing where
  order : Peer → List Peer → List Peer
  perm : ∀ self others, (order self others).Perm others

/-- Each node hears of the others as they were added. -/
def Listing.asAdded : Listing := ⟨fun _ others => others, fun _ _ => .refl _⟩

namespace LocalNetwork

/-- A network without nodes. -/
def empty (config : DhtConfig) : LocalNetwork := ⟨config, [], [], false, 10000⟩

/-- The address of a port. -/
def addressOf (port : UInt16) : Address := .v4 ⟨[127, 0, 0, 1], rfl⟩ port

/-! ## 1. Nodes -/

/-- The node at an address. -/
def node? (n : LocalNetwork) (addr : Address) : Option Node :=
  n.nodes.find? fun node => node.self.addr == addr

/-- Changes the node at an address. -/
def modify (n : LocalNetwork) (addr : Address) (change : Node → Node) : LocalNetwork :=
  { n with nodes := n.nodes.map fun node =>
      if node.self.addr = addr then change node else node }

/-- The node after it heard of others. -/
def introduced (now : Stamp) (others : List Peer) (node : Node) : Node :=
  { node with routing := node.routing.updateAll others now }

/-- Adds a node that knows nobody. -/
def addNode (n : LocalNetwork) (id : NodeId) (now : Stamp) : LocalNetwork × Peer :=
  let self : Peer := ⟨id, addressOf n.nextPort, now⟩
  let node := Node.fresh self n.config.k n.config.k n.config.nodeTtl n.config.itemTtl
  ({ n with
      nodes := n.nodes.filter (fun other => other.self.addr != self.addr) ++ [node]
      nextPort := n.nextPort + 1 }, self)

/-- Adds nodes that know nobody. -/
def addNodes (n : LocalNetwork) (now : Stamp) : List NodeId → LocalNetwork × List Peer
  | [] => (n, [])
  | id :: rest =>
    let (n, peer) := n.addNode id now
    let (n, peers) := n.addNodes now rest
    (n, peer :: peers)

/-- Adds nodes with these ids; afterwards they and the others know each other. -/
def spawnListed (n : LocalNetwork) (listing : Listing) (ids : List NodeId) (now : Stamp) :
    LocalNetwork × List Peer :=
  let (n, added) := n.addNodes now ids
  let n := { n with nodes := n.nodes.map (introduced now added) }
  let all := n.nodes.map (·.self)
  let isNew (node : Node) : Bool := added.any fun p => p.addr == node.self.addr
  ({ n with nodes := n.nodes.map fun node =>
      if isNew node then introduced now (listing.order node.self all) node else node }, added)

/-- The same with the nodes listed as they were added. -/
def spawn (n : LocalNetwork) (ids : List NodeId) (now : Stamp) : LocalNetwork × List Peer :=
  n.spawnListed .asAdded ids now

/-- Adds a client, which knows all nodes that are there. -/
def addClientListed (n : LocalNetwork) (listing : Listing) (id : NodeId) (now : Stamp) :
    LocalNetwork × Peer :=
  let existing := n.nodes.map (·.self)
  let (n, self) := n.addNode id now
  (n.modify self.addr (introduced now (listing.order self existing)), self)

/-- The same with the nodes listed as they were added. -/
def addClient (n : LocalNetwork) (id : NodeId) (now : Stamp) : LocalNetwork × Peer :=
  n.addClientListed .asAdded id now

/-! ## 2. Items -/

/-- The number of nodes that hold a live item of a target. -/
def holders (n : LocalNetwork) (target : NodeId) (now : Stamp) : Nat :=
  n.nodes.countP fun node => (node.items.get target none now).isSome

/-- Puts an item into the store of one node. -/
def seedItem (n : LocalNetwork) (addr : Address) (item : Item) (now : Stamp) :
    Except DhtError LocalNetwork :=
  match n.node? addr with
  | none => .error (.invalidNode s!"unknown node {addr.text}")
  | some node =>
    match node.items.put item now with
    | .ok items => .ok (n.modify addr fun node => { node with items })
    | .error e => .error (.rejected e.message)

/-- Makes every node forget its items. -/
def forgetAll (n : LocalNetwork) : LocalNetwork :=
  { n with nodes := n.nodes.map fun node => { node with items := node.items.clear } }

/-! ## 3. Messages -/

/-- Whether a message asks to keep an item of a failing target. -/
def isRefused (n : LocalNetwork) : Message → Bool
  | .put _ item _ => n.failing.contains item.target
  | _ => false

/-- Delivers a message and answers the reply. -/
def deliver (n : LocalNetwork) (now : Stamp) (source target : Address) (m : Message) :
    LocalNetwork × Except DhtError Message :=
  if n.offline then (n, .error (.timeout s!"{target.text} unreachable"))
  else if n.isRefused m then (n, .error (.rejected "simulated put failure"))
  else
    match n.node? target with
    | none => (n, .error (.timeout s!"{target.text} unreachable"))
    | some node =>
      match node.handle now source m with
      | (node, some reply) => (n.modify target fun _ => node, .ok reply)
      | (node, none) => (n.modify target fun _ => node, .error (.failed "no reply"))

end LocalNetwork

end SignedRecords
