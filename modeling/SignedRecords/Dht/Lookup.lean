import SignedRecords.Dht.Item
import SignedRecords.Dht.Peer
import SignedRecords.Dht.Stats

/-!
# Lookups

A lookup asks nodes for the item of a target, nearer and nearer ones, until no node that counts is
left to ask. Every reply may bring an item and names further nodes. The lookup keeps the nodes it
has learned of in increasing distance, each id once and under the address it came with first; it
never asks itself.

Only the `k` nearest nodes that have not failed count, and at most `alpha` queries are outstanding
at a time (each is at least one). When none is outstanding and none can be started, the lookup has
stalled, and it hands over the nearest nodes that answered.

`Lookup.begin` and `Lookup.answer` are the only steps; between them the queries that they started
may end in any order.
-/

namespace SignedRecords

/-- What a node answers to a query. -/
structure GetReply where
  item : Option Item
  nodes : List Peer

/-- What became of a node that a lookup has learned of. -/
inductive QueryState where
  | pending
  | querying
  | responded
  | failed
  deriving DecidableEq, Repr

/-- A node that a lookup has learned of. -/
structure Candidate where
  peer : Peer
  state : QueryState
  deriving DecidableEq

/-- What a lookup reports. -/
inductive LookupEvent where
  /-- A node answered with an item that holds at the target. -/
  | candidate (item : Item)
  /-- No node is left to ask; these are the nearest that answered. -/
  | stalled (closest : List Peer)
  deriving DecidableEq

/-- A lookup that is running. -/
structure Lookup where
  /-- The id of the node that asks. -/
  localId : NodeId
  target : NodeId
  /-- Items that are not above this sequence number are left out of replies. -/
  known : Option Sequence
  k : Nat
  alpha : Nat
  /-- The nodes learned of, in increasing distance. -/
  candidates : List Candidate
  stats : LookupStats

/-- A lookup after a step, with what it reports and the nodes that it now asks. -/
structure LookupStep where
  lookup : Lookup
  events : List LookupEvent
  queries : List Peer

namespace Lookup

/-! ## 1. The nodes learned of -/

/-- The distance of an id from the target. -/
def distance (target id : NodeId) : Nat := (NodeId.distance id target).toNat

/-- Puts a node at its place, unless its id is there already. -/
def insertPeer (target : NodeId) (peer : Peer) : List Candidate → List Candidate
  | [] => [⟨peer, .pending⟩]
  | c :: rest =>
    if distance target peer.id < distance target c.peer.id then ⟨peer, .pending⟩ :: c :: rest
    else if distance target peer.id = distance target c.peer.id then c :: rest
    else c :: insertPeer target peer rest

/-- Learns of nodes; the asking node itself is passed over. -/
def learn (l : Lookup) (peers : List Peer) : Lookup :=
  let others := peers.filter (·.id != l.localId)
  { l with candidates := others.foldl (fun cs p => insertPeer l.target p cs) l.candidates }

/-- The number of queries that are outstanding. -/
def outstanding (l : Lookup) : Nat := l.candidates.countP (·.state == .querying)

/-- The nodes that count: the nearest that have not failed. -/
def window (l : Lookup) : List Candidate :=
  (l.candidates.filter (·.state != .failed)).take (max l.k 1)

/-- The nearest nodes that answered. -/
def closest (l : Lookup) : List Peer :=
  ((l.candidates.filter (·.state == .responded)).take (max l.k 1)).map (·.peer)

/-- Notes what became of a node. -/
def mark (l : Lookup) (id : NodeId) (state : QueryState) : Lookup :=
  { l with candidates :=
      l.candidates.map fun c => if c.peer.id = id then { c with state } else c }

/-! ## 2. Asking -/

/-- The nearest node that counts and has not been asked. -/
def next? (l : Lookup) : Option Peer := (l.window.find? (·.state == .pending)).map (·.peer)

/-- Starts at most `slots` queries. -/
def ask : Nat → Lookup → Lookup × List Peer
  | 0, l => (l, [])
  | slots + 1, l =>
    match l.next? with
    | none => (l, [])
    | some peer =>
      let l := l.mark peer.id .querying
      let (l, more) := ask slots { l with stats := { l.stats with tried := l.stats.tried + 1 } }
      (l, peer :: more)

/-- Starts as many queries as are allowed, and reports the stall when none is outstanding. -/
def proceed (l : Lookup) (events : List LookupEvent) : LookupStep :=
  let (l, queries) := ask (max l.alpha 1 - l.outstanding) l
  if l.outstanding = 0 then ⟨l, events ++ [.stalled l.closest], queries⟩
  else ⟨l, events, queries⟩

/-! ## 3. Steps -/

/-- A lookup that knows its first nodes and has not asked any. -/
def ofSeeds (localId target : NodeId) (known : Option Sequence) (k alpha : Nat)
    (seeds : List Peer) : Lookup :=
  learn ⟨localId, target, known, k, alpha, [], ⟨0, 0⟩⟩ seeds

/-- The first queries. -/
def begin (l : Lookup) : LookupStep := l.proceed []

/-- Whether a query to a node is outstanding. -/
def isQuerying (l : Lookup) (id : NodeId) : Bool :=
  l.candidates.any fun c => c.peer.id == id && c.state == .querying

/-- The lookup after a reply, with the candidate that the reply brought. -/
def accept (l : Lookup) (id : NodeId) (reply : GetReply) : Lookup × List LookupEvent :=
  let l := l.mark id .responded
  let l := { l with stats := { l.stats with responses := l.stats.responses + 1 } }
  let events := match reply.item with
    | some item => if item.holdsAt l.target then [.candidate item] else []
    | none => []
  (l.learn reply.nodes, events)

/-- A query ends: with a reply, or without one when it failed or took too long. An end of a query
    that is not outstanding changes nothing. -/
def answer (l : Lookup) (id : NodeId) (reply : Option GetReply) : LookupStep :=
  if l.isQuerying id then
    match reply with
    | some reply =>
      let (l, events) := l.accept id reply
      l.proceed events
    | none => (l.mark id .failed).proceed []
  else ⟨l, [], []⟩

end Lookup

end SignedRecords
