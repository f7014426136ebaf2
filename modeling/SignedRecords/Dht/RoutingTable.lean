import SignedRecords.Dht.Peer

/-!
# Routing tables

The nodes that a node knows, in buckets by the number of leading bits their ids share with its
own, and once more in a map by id. A bucket holds at most `bucketSize` nodes, the one heard from
longest ago first. A full bucket takes a new node only in the place of its first one, and only
when that one is expired.

The nearest nodes to a target come from the map, in increasing distance.
-/

namespace SignedRecords

/-- The number of buckets: one for every bit of an id. -/
def bucketCount : Nat := 160

/-- The nodes that a node knows. -/
structure RoutingTable where
  /-- The node's own id, which is never in the table. -/
  localId : NodeId
  /-- The most nodes of a bucket. -/
  bucketSize : Nat
  /-- Milliseconds after which a node that was not heard from is expired. -/
  nodeTtl : Nat
  /-- The buckets, by the number of shared leading bits. -/
  buckets : List (List Peer)
  /-- The same nodes by id. -/
  nodes : List Peer

namespace RoutingTable

/-- A table without nodes. -/
def empty (localId : NodeId) (bucketSize nodeTtl : Nat) : RoutingTable :=
  ⟨localId, bucketSize, nodeTtl, List.replicate bucketCount [], []⟩

/-! ## 1. The two views -/

/-- The bucket that an id belongs to. -/
def bucketIndex (t : RoutingTable) (id : NodeId) : Nat :=
  min (t.localId.sharedBits id) (bucketCount - 1)

/-- A bucket. -/
def bucket (t : RoutingTable) (i : Nat) : List Peer := t.buckets.getD i []

/-- The node with an id. -/
def find? (t : RoutingTable) (id : NodeId) : Option Peer := t.nodes.find? (·.id == id)

/-- The number of nodes. -/
def size (t : RoutingTable) : Nat := t.nodes.length

/-- A list of nodes with one more, in the place of the one with its id if there is one. -/
def insertNode (node : Peer) : List Peer → List Peer
  | [] => [node]
  | p :: rest => if p.id = node.id then node :: rest else p :: insertNode node rest

/-- A list of nodes without the one with an id. -/
def eraseNode (id : NodeId) (nodes : List Peer) : List Peer := nodes.filter (·.id != id)

/-! ## 2. Changes -/

/-- Records that a node was heard from now; says whether it is in the table afterwards. -/
def update (t : RoutingTable) (node : Peer) (now : Stamp) : RoutingTable × Bool :=
  if node.id = t.localId then (t, false)
  else
    let node := node.touched now
    let i := t.bucketIndex node.id
    let here := t.bucket i
    if here.any (·.id == node.id) then
      ({ t with
          buckets := t.buckets.set i (here.eraseP (·.id == node.id) ++ [node])
          nodes := insertNode node t.nodes }, true)
    else if here.length < t.bucketSize then
      ({ t with
          buckets := t.buckets.set i (here ++ [node])
          nodes := insertNode node t.nodes }, true)
    else
      match here with
      | [] => (t, false)
      | oldest :: rest =>
        if oldest.isExpired now t.nodeTtl then
          ({ t with
              buckets := t.buckets.set i (rest ++ [node])
              nodes := insertNode node (eraseNode oldest.id t.nodes) }, true)
        else (t, false)

/-- Records that several nodes were heard from now. -/
def updateAll (t : RoutingTable) (nodes : List Peer) (now : Stamp) : RoutingTable :=
  nodes.foldl (fun t node => (t.update node now).1) t

/-- Takes a node out of the table. -/
def remove (t : RoutingTable) (id : NodeId) : RoutingTable × Option Peer :=
  let i := t.bucketIndex id
  ({ t with
      buckets := t.buckets.set i ((t.bucket i).filter (·.id != id))
      nodes := eraseNode id t.nodes }, t.find? id)

/-- Takes all expired nodes out of the table and counts them. -/
def removeExpired (t : RoutingTable) (now : Stamp) : RoutingTable × Nat :=
  let live (nodes : List Peer) := nodes.filter fun p => !p.isExpired now t.nodeTtl
  ({ t with buckets := t.buckets.map live, nodes := live t.nodes },
    t.buckets.flatten.countP (·.isExpired now t.nodeTtl))

/-! ## 3. Nearest nodes -/

/-- Whether one node is at most as far from a target as another. -/
def notFarther (target : NodeId) (a b : Peer) : Bool :=
  (a.id.distance target).toNat ≤ (b.id.distance target).toNat

/-- The nearest of some nodes to a target, in increasing distance. -/
def nearestOf (nodes : List Peer) (target : NodeId) (count : Nat) : List Peer :=
  (nodes.mergeSort (notFarther target)).take count

/-- The nearest nodes of the table to a target. -/
def nearest (t : RoutingTable) (target : NodeId) (count : Nat) : List Peer :=
  nearestOf t.nodes target count

end RoutingTable

end SignedRecords
