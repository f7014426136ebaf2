import SignedRecords.Dht.RoutingTable

/-!
# Joining a network

A node that starts asks some peers who they are, and then those that answered which nodes are near
its own id. All of them go into its routing table: first the peers, then what each of them named.
-/

namespace SignedRecords

/-- A peer that answered. -/
structure Welcome where
  peer : Peer
  /-- The nodes that it named; none when it did not answer the second question. -/
  named : List Peer

/-- A routing table after the node asked its first peers. -/
def RoutingTable.bootstrapped (t : RoutingTable) (welcomes : List Welcome) (now : Stamp) :
    RoutingTable :=
  let t := t.updateAll (welcomes.map (·.peer)) now
  welcomes.foldl (fun t w => t.updateAll w.named now) t

end SignedRecords
