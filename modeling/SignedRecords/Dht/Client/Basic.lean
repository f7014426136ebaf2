import SignedRecords.Dht.Config
import SignedRecords.Dht.Lookup
import SignedRecords.Dht.RoutingTable
import SignedRecords.Record.Id
import SignedRecords.Record.Response

/-!
# What a client of the DHT asks for

A client looks up items and puts items, starting from the nodes that its routing table knows
nearest to the target. Records are put as items without salt, and looked up by their ids.
-/

namespace SignedRecords

/-- Why a client did not get or put an item. -/
inductive TransportError where
  /-- No node had the item. -/
  | notFound (stats : LookupStats)
  /-- The time was up. -/
  | timeout (stats : LookupStats)
  /-- No node acknowledged. -/
  | putFailed (stats : LookupStats)
  /-- There is no node to ask. -/
  | noNodes
  /-- The text is no record id. -/
  | invalidId (error : RecordError)
  deriving DecidableEq, Repr

/-- The wording of a transport error. -/
def TransportError.message : TransportError → String
  | .notFound stats => s!"value not found ({stats.text})"
  | .timeout stats => s!"traversal timed out ({stats.text})"
  | .putFailed stats => s!"put failed: no node acknowledged ({stats.text})"
  | .noNodes => "no known DHT nodes"
  | .invalidId e => s!"invalid id: {e.message}"

/-- What a lookup of a record id brings: the parts of a response, and whether the item has an
    owner. -/
structure FullGet where
  response : Response
  isMutable : Bool
  deriving DecidableEq

/-- The parts of an item; what it does not carry is zero. -/
def FullGet.ofItem (item : Item) : FullGet :=
  { response :=
      { value := item.value
        sequence := item.seq.getD 0
        signature := (item.signature.bind (Octets.ofBytes? 64)).getD (.zero 64) }
    isMutable := item.isMutable }

namespace DhtConfig

/-- The nodes that a lookup starts from. -/
def seeds (c : DhtConfig) (table : RoutingTable) (target : NodeId) : List Peer :=
  table.nearest target (max c.k c.alpha)

/-- A lookup for a client. -/
def lookup (c : DhtConfig) (localId target : NodeId) (known : Option Sequence)
    (seeds : List Peer) : Lookup :=
  .ofSeeds localId target known c.k c.alpha seeds

end DhtConfig

/-- Where the item of a record id lives. -/
def targetOfId (id : String) : Except TransportError NodeId :=
  match readRecordId id with
  | .ok key => .ok (NodeId.ofKey key [])
  | .error e => .error (.invalidId e)

end SignedRecords
