import SignedRecords.Dht.Client.Put
import SignedRecords.Dht.Client.Search
import SignedRecords.Simulation.Agenda
import SignedRecords.Simulation.Network

/-!
# Clients of a simulation

Searches, puts and bare lookups of clients in a network, any number of them at a time. Each is a
call with a number; its queries travel through the agenda. A call that has ended or was given up
is gone: its queries reach no node any more.
-/

namespace SignedRecords.Simulation

/-- What is asked of a client. -/
inductive Request where
  | search (target : NodeId) (known : Option Sequence)
  | put (item : Item)
  /-- A lookup with settings and first nodes of its own, and without a deadline. -/
  | lookup (lookup : Lookup) (queryTimeout : Nat)

/-- How a call ends. -/
inductive Outcome where
  | searched (result : Except TransportError (Item × LookupStats))
  | put (result : Except TransportError LookupStats)
  /-- What a lookup reported, each with its time. -/
  | lookedUp (events : List (LookupEvent × Nat)) (stats : LookupStats)

/-- What runs in a call. -/
inductive Task where
  | search (search : Search)
  | put (put : ItemPut)
  | lookup (lookup : Lookup) (events : List (LookupEvent × Nat))

/-- A call that runs. -/
structure Call where
  /-- The client. -/
  self : Peer
  queryTimeout : Nat
  task : Task

/-- What can happen to a call. -/
inductive CallEvent where
  /-- The lookup starts its first queries. -/
  | begins
  /-- A get reaches a node. -/
  | reaches (peer : Peer)
  /-- A get has failed or has taken too long. -/
  | fails (id : NodeId)
  /-- A put reaches a node. -/
  | stores (peer : Peer)
  /-- A put has failed. -/
  | refused (id : NodeId)
  | deadline

/-- A query that was started. -/
structure Sent where
  time : Nat
  isPut : Bool
  /-- The number of the node, if there is one. -/
  node : Option Nat
  deriving DecidableEq

/-- Whether a query comes before another one in a report: by time, gets before puts, and by the
    number of the node, unknown nodes first. -/
def Sent.le (a b : Sent) : Bool :=
  let place (s : Sent) : Nat := s.node.elim 0 (· + 1)
  if a.time ≠ b.time then a.time < b.time
  else if a.isPut ≠ b.isPut then b.isPut
  else place a ≤ place b

/-- The clients of a network. -/
structure Clients where
  /-- The second since 1970 at which the simulation starts. -/
  start : Int
  config : DhtConfig
  network : Network
  calls : List (Nat × Call)
  /-- The queries that were started, the last one first. -/
  sent : List Sent

/-- The clients after an event, with the alarms it set and the call that it ended. -/
structure Progress where
  clients : Clients
  alarms : List (Alarm (Nat × CallEvent))
  ended : Option (Nat × Outcome)

namespace Clients

/-- The calendar clock. -/
def stamp (c : Clients) (now : Nat) : Stamp := .ofClock c.start now

/-- Takes a call away. -/
def drop (c : Clients) (number : Nat) : Clients :=
  { c with calls := c.calls.filter (·.1 != number) }

/-- Puts a call at the place of the one with its number. -/
def keep (c : Clients) (number : Nat) (call : Call) : Clients :=
  { c with calls := (number, call) :: c.calls.filter (·.1 != number) }

/-- Ends a call. -/
def close (c : Clients) (number : Nat) (outcome : Outcome) : Progress :=
  ⟨c.drop number, [], some (number, outcome)⟩

/-- The queries that were started after the first `n`, in the order of a report. -/
def sentSince (c : Clients) (n : Nat) : List Sent :=
  (c.sent.take (c.sent.length - n)).mergeSort Sent.le

/-! ## 1. Queries -/

/-- Starts a get. -/
def sendGet (number : Nat) (queryTimeout now : Nat) (c : Clients) (peer : Peer) :
    Clients × List (Alarm (Nat × CallEvent)) :=
  let c := { c with sent := ⟨now, false, c.network.index? peer.addr⟩ :: c.sent }
  let reply := match c.network.getReaction peer.addr with
    | .handles d => [⟨now + d, .arrival, (number, .reaches peer)⟩]
    | .fails d => [⟨now + d, .arrival, (number, .fails peer.id)⟩]
    | .silent => []
  (c, reply ++ [⟨now + queryTimeout, .queryDeadline, (number, .fails peer.id)⟩])

/-- Starts a put. -/
def sendPut (number now : Nat) (c : Clients) (peer : Peer) :
    Clients × List (Alarm (Nat × CallEvent)) :=
  let c := { c with sent := ⟨now, true, c.network.index? peer.addr⟩ :: c.sent }
  match c.network.putReaction peer.addr with
  | .handles d => (c, [⟨now + d, .arrival, (number, .stores peer)⟩])
  | .fails d => (c, [⟨now + d, .arrival, (number, .refused peer.id)⟩])
  | .silent => (c, [])

/-- Starts queries, one after the other. -/
def sendAll (send : Clients → Peer → Clients × List (Alarm (Nat × CallEvent))) (c : Clients) :
    List Peer → Clients × List (Alarm (Nat × CallEvent))
  | [] => (c, [])
  | peer :: rest =>
    let (c, first) := send c peer
    let (c, more) := sendAll send c rest
    (c, first ++ more)

/-! ## 2. Calls -/

/-- Starts a call. A search or a put without a node to ask ends at once. -/
def startCall (c : Clients) (self : Peer) (now number timeout : Nat) (request : Request) :
    Progress :=
  let begins : Alarm (Nat × CallEvent) := ⟨now, .beginning, (number, .begins)⟩
  let deadline : Alarm (Nat × CallEvent) := ⟨now + timeout, .callDeadline, (number, .deadline)⟩
  let open' (queryTimeout : Nat) (task : Task) : Clients :=
    c.keep number ⟨self, queryTimeout, task⟩
  let seeds (target : NodeId) := c.config.seeds (c.network.routing self) target
  match request with
  | .search target known =>
    match seeds target with
    | [] => c.close number (.searched (.error .noNodes))
    | seeds =>
      let lookup := c.config.lookup self.id target known seeds
      ⟨open' c.config.queryTimeout (.search (.ofLookup lookup)), [begins, deadline], none⟩
  | .put item =>
    match seeds item.target with
    | [] => c.close number (.put (.error .noNodes))
    | seeds =>
      let lookup := c.config.lookup self.id item.target none seeds
      ⟨open' c.config.queryTimeout (.put (.ofLookup item lookup)), [begins, deadline], none⟩
  | .lookup lookup queryTimeout => ⟨open' queryTimeout (.lookup lookup []), [begins], none⟩

/-- Goes on with a search. -/
def goOnSearch (c : Clients) (now number : Nat) (call : Call) (step : Search × List Peer) :
    Progress :=
  match step.1.receiveAll with
  | .inr e =>
    { c with network := c.network.learn call.self e.learned (c.stamp now) }.close number
      (.searched e.result)
  | .inl search =>
    let (c, alarms) := sendAll (sendGet number call.queryTimeout now) c step.2
    ⟨c.keep number { call with task := .search search }, alarms, none⟩

/-- Goes on with a put after its reports have been read. -/
def goOnStored (c : Clients) (now number : Nat) (call : Call) : PutStep → Progress
  | .goesOn put queries =>
    let (c, alarms) := sendAll (sendGet number call.queryTimeout now) c queries
    ⟨c.keep number { call with task := .put put }, alarms, none⟩
  | .sends put nodes =>
    let c := { c with network := c.network.learn call.self nodes (c.stamp now) }
    let (c, alarms) := sendAll (sendPut number now) c nodes
    ⟨c.keep number { call with task := .put put }, alarms, none⟩
  | .ends result learned =>
    { c with network := c.network.learn call.self learned (c.stamp now) }.close number
      (.put result)

/-- Goes on with a put. -/
def goOnPut (c : Clients) (now number : Nat) (call : Call) : PutStep → Progress
  | .goesOn put queries =>
    match put.receiveAll with
    | .goesOn put _ => c.goOnStored now number call (.goesOn put queries)
    | step => c.goOnStored now number call step
  | step => c.goOnStored now number call step

/-- Whether a report is the last one. -/
def isStall : LookupEvent → Bool
  | .stalled _ => true
  | .candidate _ => false

/-- Goes on with a bare lookup. -/
def goOnLookup (c : Clients) (now number : Nat) (call : Call) (events : List (LookupEvent × Nat))
    (step : LookupStep) : Progress :=
  let events := events ++ step.events.map fun e => (e, now)
  if step.events.any isStall then c.close number (.lookedUp events step.lookup.stats)
  else
    let (c, alarms) := sendAll (sendGet number call.queryTimeout now) c step.queries
    ⟨c.keep number { call with task := .lookup step.lookup events }, alarms, none⟩

/-- A get of a call ends. -/
def answer (c : Clients) (now number : Nat) (call : Call) (id : NodeId)
    (reply : Option GetReply) : Progress :=
  match call.task with
  | .search s => c.goOnSearch now number call (s.answer id reply)
  | .put p => c.goOnPut now number call (p.answer id reply)
  | .lookup l events => c.goOnLookup now number call events (l.answer id reply)

/-- A put to one node ends. -/
def acknowledge (c : Clients) (now number : Nat) (call : Call) (id : NodeId) (ok : Bool) :
    Progress :=
  match call.task with
  | .put p => c.goOnStored now number call (p.acknowledge id ok)
  | _ => ⟨c, [], none⟩

/-- What a call asks nodes for. -/
def Call.lookup (call : Call) : Lookup :=
  match call.task with
  | .search s => s.lookup
  | .put p => p.lookup
  | .lookup l _ => l

/-- Something happens to a call. -/
def onEvent (c : Clients) (now number : Nat) (call : Call) : CallEvent → Progress
  | .begins =>
    match call.task with
    | .search s => c.goOnSearch now number call s.begin
    | .put p => c.goOnPut now number call p.begin
    | .lookup l events => c.goOnLookup now number call events l.begin
  | .reaches peer =>
    let l := Call.lookup call
    if l.isQuerying peer.id then
      let (network, reply) :=
        c.network.get (c.stamp now) call.self peer.addr l.target l.known
      answer { c with network } now number call peer.id reply
    else ⟨c, [], none⟩
  | .fails id => c.answer now number call id none
  | .stores peer =>
    match call.task with
    | .put p =>
      let (network, ok) := c.network.put (c.stamp now) call.self peer.addr p.item
      acknowledge { c with network } now number call peer.id ok
    | _ => ⟨c, [], none⟩
  | .refused id => c.acknowledge now number call id false
  | .deadline =>
    match call.task with
    | .search s => c.close number (.searched s.expire.result)
    | .put p => c.close number (.put p.expire)
    | .lookup .. => ⟨c, [], none⟩

/-- Something happens to the call with a number, if it still runs. -/
def handle (c : Clients) (now number : Nat) (event : CallEvent) : Progress :=
  match c.calls.find? (·.1 == number) with
  | some (_, call) => c.onEvent now number call event
  | none => ⟨c, [], none⟩

end Clients

end SignedRecords.Simulation
