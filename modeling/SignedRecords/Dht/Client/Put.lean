import SignedRecords.Dht.Client.Basic

/-!
# Putting an item

A put looks for the nodes nearest to the item's target and then sends them the item, all at once.
One acknowledgement is enough. The deadline covers both parts: before the stall of the lookup
nobody gets the item, and after it the acknowledgements collected so far count.
-/

namespace SignedRecords

/-- Where a put stands. -/
inductive PutPhase where
  /-- The lookup runs; these reports have not been read. -/
  | searching (mailbox : List LookupEvent)
  /-- The item has been sent; these nodes have not answered. -/
  | storing (waiting : List Peer) (tried acks : Nat)

/-- A put that is running. -/
structure ItemPut where
  item : Item
  lookup : Lookup
  phase : PutPhase

/-- What comes next in a put. -/
inductive PutStep where
  /-- The put goes on; these nodes are asked, as part of the lookup. -/
  | goesOn (put : ItemPut) (queries : List Peer)
  /-- The lookup has stalled; these nodes are sent the item, and the client learns of them. -/
  | sends (put : ItemPut) (nodes : List Peer)
  /-- The put has ended; the client learns of these nodes. -/
  | ends (result : Except TransportError LookupStats) (learned : List Peer)

namespace ItemPut

/-- A put whose lookup has not asked any node. -/
def ofLookup (item : Item) (l : Lookup) : ItemPut := ⟨item, l, .searching []⟩

/-- The counts of the lookup and of what was sent. -/
def stats (p : ItemPut) (tried acks : Nat) : LookupStats :=
  ⟨p.lookup.stats.tried + tried, p.lookup.stats.responses + acks⟩

/-- The put after a step of its lookup. -/
def follow (p : ItemPut) (step : LookupStep) : PutStep :=
  match p.phase with
  | .searching mailbox =>
    .goesOn { p with lookup := step.lookup, phase := .searching (mailbox ++ step.events) }
      step.queries
  | .storing .. => .goesOn p []

/-- The first queries. -/
def begin (p : ItemPut) : PutStep := p.follow p.lookup.begin

/-- A query of the lookup ends. -/
def answer (p : ItemPut) (id : NodeId) (reply : Option GetReply) : PutStep :=
  p.follow (p.lookup.answer id reply)

/-- Reads one report; with the stall the item is sent. -/
def receive (p : ItemPut) : PutStep :=
  match p.phase with
  | .searching (.candidate _ :: rest) => .goesOn { p with phase := .searching rest } []
  | .searching (.stalled [] :: _) => .ends (.error (.putFailed p.lookup.stats)) []
  | .searching (.stalled closest :: _) =>
    .sends { p with phase := .storing closest 0 0 } closest
  | _ => .goesOn p []

/-- Reads up to `n` reports. -/
def receiveUpTo : Nat → ItemPut → PutStep
  | 0, p => .goesOn p []
  | n + 1, p =>
    match p.receive with
    | .goesOn p _ => receiveUpTo n p
    | step => step

/-- Reads all reports. -/
def receiveAll (p : ItemPut) : PutStep :=
  match p.phase with
  | .searching mailbox => receiveUpTo mailbox.length p
  | .storing .. => .goesOn p []

/-- The outcome of a put whose nodes have all answered. -/
def result (p : ItemPut) (tried acks : Nat) : Except TransportError LookupStats :=
  if 0 < acks then .ok (p.stats tried acks) else .error (.putFailed (p.stats tried acks))

/-- A node that was sent the item answers. -/
def acknowledge (p : ItemPut) (id : NodeId) (ok : Bool) : PutStep :=
  match p.phase with
  | .searching _ => .goesOn p []
  | .storing waiting tried acks =>
    if waiting.any (·.id == id) then
      let left := waiting.filter (·.id != id)
      let tried := tried + 1
      let acks := if ok then acks + 1 else acks
      if left.isEmpty then .ends (p.result tried acks) []
      else .goesOn { p with phase := .storing left tried acks } []
    else .goesOn p []

/-- The deadline comes. -/
def expire (p : ItemPut) : Except TransportError LookupStats :=
  match p.phase with
  | .searching _ => .error (.timeout p.lookup.stats)
  | .storing _ tried acks =>
    if 0 < acks then .ok (p.stats tried acks) else .error (.timeout (p.stats tried acks))

end ItemPut

end SignedRecords
