import SignedRecords.Dht.Client.Basic
import SignedRecords.Dht.LocalNetwork

/-!
# Networks of a simulation

Two kinds of network that a client can live in: a local one, which answers at once, and one whose
nodes take their time, fail, keep silent, or say what they should not.
-/

namespace SignedRecords.Simulation

/-- How a node behaves. -/
inductive Mode where
  | normal
  /-- Every query fails. -/
  | error
  /-- No query is answered. -/
  | hang
  /-- Only puts fail. -/
  | errorPut
  /-- Only puts are not answered. -/
  | hangPut
  deriving DecidableEq, Repr

/-- A node of a simulation. -/
structure SlowNode where
  node : Node
  /-- Milliseconds until a get is handled. -/
  delay : Nat
  /-- Milliseconds until a put is handled. -/
  putDelay : Nat
  mode : Mode
  /-- Takes the place of the item in replies to gets. -/
  forged : Option Item
  /-- Nodes that are added to replies to gets. -/
  extra : List Peer

/-- A network with a client, or with several. -/
inductive Network where
  | inProcess (network : LocalNetwork)
  | slow (nodes : List SlowNode) (client : RoutingTable)

/-- What becomes of a query. -/
inductive Reaction where
  /-- It is handled after some milliseconds. -/
  | handles (after : Nat)
  /-- It fails after some milliseconds. -/
  | fails (after : Nat)
  | silent

/-- How a node reacts to a get. -/
def SlowNode.getReaction (n : SlowNode) : Reaction :=
  match n.mode with
  | .error => .fails n.delay
  | .hang => .silent
  | _ => .handles n.delay

/-- How a node reacts to a put. -/
def SlowNode.putReaction (n : SlowNode) : Reaction :=
  match n.mode with
  | .error | .errorPut => .fails n.putDelay
  | .hang | .hangPut => .silent
  | .normal => .handles n.putDelay

/-- A node that keeps these items and has heard of these nodes. -/
def furnish (node : Node) (now : Stamp) (known : List Peer) (items : List Item) : Node :=
  { node with
    routing := node.routing.updateAll known now
    items := items.foldl (fun s item => ((s.put item now).toOption).getD s) node.items }

/-- An id for the `n`-th node of a network whose ids do not matter. -/
def freshId (n : Nat) : NodeId := .ofOctets (Sha1.digest (Bytes.littleEndian 8 n))

/-- The ids of the next nodes. -/
def freshIds (n count : Nat) : List NodeId := (List.range count).map fun i => freshId (n + i)

namespace Network

/-- A local network of some nodes, with one client. -/
def ofLocal (config : DhtConfig) (count : Nat) (now : Stamp) : Network × Peer :=
  let (network, _) := (LocalNetwork.empty config).spawn (freshIds 0 count) now
  let (network, self) := network.addClient (freshId count) now
  (.inProcess network, self)

/-- The number of the node at an address, where nodes are numbered. -/
def index? : Network → Address → Option Nat
  | .inProcess n, addr => n.nodes.findIdx? fun node => node.self.addr == addr
  | .slow nodes _, addr => nodes.findIdx? fun n => n.node.self.addr == addr

/-- What becomes of a get that is sent to an address. -/
def getReaction (n : Network) (addr : Address) : Reaction :=
  match n with
  | .inProcess _ => .handles 0
  | .slow nodes _ =>
    match nodes.find? fun n => n.node.self.addr == addr with
    | some node => node.getReaction
    | none => .fails 0

/-- What becomes of a put that is sent to an address. -/
def putReaction (n : Network) (addr : Address) : Reaction :=
  match n with
  | .inProcess _ => .handles 0
  | .slow nodes _ =>
    match nodes.find? fun n => n.node.self.addr == addr with
    | some node => node.putReaction
    | none => .fails 0

/-- Changes the slow node with a number. -/
def modifySlow (n : Network) (i : Nat) (change : SlowNode → SlowNode) : Network :=
  match n with
  | .inProcess _ => n
  | .slow nodes client => .slow (nodes.modify i change) client

/-- Changes how a slow node behaves; a delay that is given holds for gets and puts. -/
def setMode (n : Network) (i : Nat) (mode : Mode) (delay : Option Nat) : Network :=
  n.modifySlow i fun node =>
    { node with mode, delay := delay.getD node.delay, putDelay := delay.getD node.putDelay }

/-- The slow node with a number. -/
def slowNode? (n : Network) (i : Nat) : Option Node :=
  match n with
  | .inProcess _ => none
  | .slow nodes _ => (nodes[i]?).map (·.node)

/-- Puts an item into the store of a slow node. -/
def putInto (n : Network) (i : Nat) (item : Item) (now : Stamp) : Except KeepError Network :=
  match n.slowNode? i with
  | none => .ok n
  | some node =>
    (node.items.put item now).map fun items =>
      n.modifySlow i fun one => { one with node := { one.node with items } }

/-- Empties the store of a slow node. -/
def emptyNode (n : Network) (i : Nat) : Network :=
  n.modifySlow i fun one => { one with node := { one.node with items := one.node.items.clear } }

/-- The numbers of the slow nodes that hold a live item of a target. -/
def holders (n : Network) (target : NodeId) (now : Stamp) : List Nat :=
  match n with
  | .inProcess _ => []
  | .slow nodes _ =>
    (nodes.zipIdx.filter fun (one, _) => (one.node.items.get target none now).isSome).map (·.2)

/-- Hands a message to the node at an address; the answer is its reply. -/
def deliver (n : Network) (now : Stamp) (source target : Address) (m : Message) :
    Network × Option Message :=
  match n with
  | .inProcess network =>
    let (network, reply) := network.deliver now source target m
    (.inProcess network, reply.toOption)
  | .slow nodes client =>
    match nodes.find? fun n => n.node.self.addr == target with
    | none => (n, none)
    | some found =>
      let (node, reply) := found.node.handle now source m
      (.slow
        (nodes.map fun n => if n.node.self.addr = target then { n with node } else n) client, reply)

/-- The reply to a get as it leaves the node at an address. -/
def distort (n : Network) (addr : Address) (reply : GetReply) : GetReply :=
  match n with
  | .inProcess _ => reply
  | .slow nodes _ =>
    match nodes.find? fun n => n.node.self.addr == addr with
    | none => reply
    | some found => ⟨found.forged.or reply.item, reply.nodes ++ found.extra⟩

/-- Asks the node at an address for an item. -/
def get (n : Network) (now : Stamp) (self : Peer) (addr : Address) (target : NodeId)
    (known : Option Sequence) : Network × Option GetReply :=
  match n.deliver now self.addr addr (.get self target known 0) with
  | (after, some (.got _ item nodes _)) => (after, some (n.distort addr ⟨item, nodes⟩))
  | (after, _) => (after, none)

/-- Asks the node at an address to keep an item; the answer is whether it does. -/
def put (n : Network) (now : Stamp) (self : Peer) (addr : Address) (item : Item) :
    Network × Bool :=
  match n.deliver now self.addr addr (.put self item 0) with
  | (after, some (.stored _ success _ _)) => (after, success)
  | (after, _) => (after, false)

/-- The routing table of a client. -/
def routing (n : Network) (self : Peer) : RoutingTable :=
  match n with
  | .inProcess network =>
    match network.node? self.addr with
    | some node => node.routing
    | none => .empty self.id 0 0
  | .slow _ client => client

/-- Changes the routing table of a client. -/
def modifyRouting (n : Network) (self : Peer) (change : RoutingTable → RoutingTable) : Network :=
  match n with
  | .inProcess network =>
    .inProcess (network.modify self.addr fun node => { node with routing := change node.routing })
  | .slow nodes client => .slow nodes (change client)

/-- A client hears of nodes. -/
def learn (n : Network) (self : Peer) (peers : List Peer) (now : Stamp) : Network :=
  n.modifyRouting self fun table => table.updateAll peers now

end Network

end SignedRecords.Simulation
