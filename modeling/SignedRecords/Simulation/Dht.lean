import SignedRecords.Simulation.Client

/-!
# A simulated DHT

Clients in a network with a clock. A call is started, time goes on until it has ended, and then
everything that is due at that moment is done as well.
-/

namespace SignedRecords.Simulation

/-- Clients in a network with a clock. -/
structure DhtWorld where
  clock : Nat
  agenda : Agenda (Nat × CallEvent)
  clients : Clients
  /-- The calls that have ended. -/
  ended : List (Nat × Outcome)
  /-- The number of the next call. -/
  nextCall : Nat

namespace DhtWorld

/-- A network at the second `start`. -/
def ofNetwork (start : Int) (config : DhtConfig) (network : Network) : DhtWorld :=
  ⟨0, [], ⟨start, config, network, [], []⟩, [], 0⟩

/-- The calendar clock. -/
def stamp (w : DhtWorld) : Stamp := w.clients.stamp w.clock

/-- The world after something happened to the clients. -/
def absorb (w : DhtWorld) (p : Progress) : DhtWorld :=
  { w with
    clients := p.clients
    agenda := w.agenda.enterAll p.alarms
    ended := p.ended.toList ++ w.ended }

instance : Timed DhtWorld (Nat × CallEvent) where
  clock w := w.clock
  setClock t w := { w with clock := t }
  agenda w := w.agenda
  setAgenda a w := { w with agenda := a }
  handle e w := w.absorb (w.clients.handle w.clock e.1 e.2)

/-- The outcome of a call that has ended. -/
def outcome? (w : DhtWorld) (number : Nat) : Option Outcome :=
  (w.ended.find? (·.1 == number)).map (·.2)

/-- Makes a call and waits for its end. -/
def call (w : DhtWorld) (self : Peer) (timeout : Nat) (request : Request) :
    DhtWorld × Option Outcome :=
  let number := w.nextCall
  let w := { w with nextCall := number + 1 }
  let w := w.absorb (w.clients.startCall self w.clock number timeout request)
  let w := finish (fun w => (w.outcome? number).isSome) w
  (w, w.outcome? number)

/-- Changes the network. -/
def modify (w : DhtWorld) (change : Network → Network) : DhtWorld :=
  { w with clients := { w.clients with network := change w.clients.network } }

/-! ## The operations of a client -/

/-- Searches for the item of a target. -/
def getItem (w : DhtWorld) (self : Peer) (timeout : Nat) (target : NodeId)
    (known : Option Sequence) : DhtWorld × Except TransportError (Item × LookupStats) :=
  match w.call self timeout (.search target known) with
  | (w, some (.searched result)) => (w, result)
  | (w, _) => (w, .error .noNodes)

/-- Puts an item. -/
def putItem (w : DhtWorld) (self : Peer) (timeout : Nat) (item : Item) :
    DhtWorld × Except TransportError LookupStats :=
  match w.call self timeout (.put item) with
  | (w, some (.put result)) => (w, result)
  | (w, _) => (w, .error .noNodes)

/-- Searches for the item of a record id. -/
def getFull (w : DhtWorld) (self : Peer) (timeout : Nat) (id : String) :
    DhtWorld × Except TransportError FullGet :=
  match targetOfId id with
  | .error e => (w, .error e)
  | .ok target =>
    let (w, result) := w.getItem self timeout target none
    (w, result.map fun found => .ofItem found.1)

/-- Puts the item of a record; answers the id. -/
def putRecord (w : DhtWorld) (self : Peer) (timeout : Nat) (record : Record) :
    DhtWorld × Except TransportError String :=
  let (w, result) := w.putItem self timeout record.item
  (w, result.map fun _ => record.id)

/-- Runs a lookup to its end; answers what it reported, each with its time. -/
def runLookup (w : DhtWorld) (self : Peer) (lookup : Lookup) (queryTimeout : Nat) :
    DhtWorld × List (LookupEvent × Nat) × LookupStats :=
  match w.call self 0 (.lookup lookup queryTimeout) with
  | (w, some (.lookedUp events stats)) => (w, events, stats)
  | (w, _) => (w, [], ⟨0, 0⟩)

end DhtWorld

end SignedRecords.Simulation
