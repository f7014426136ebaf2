import SignedRecords.Dht.Client.Basic

/-!
# Looking for an item

A search runs a lookup and reads what it reports, in the order of the reports. Of the items with
an owner it keeps the one with the highest sequence number, and of equal ones the last; an item
without an owner ends the search at once. The search also ends with the stall of the lookup, and
at its deadline.

The reports wait in a mailbox, so the lookup can be ahead of the search that reads it.
-/

namespace SignedRecords

/-- A search that is running. -/
structure Search where
  lookup : Lookup
  /-- The reports that have not been read. -/
  mailbox : List LookupEvent
  /-- The best item so far. -/
  best : Option Item

/-- The end of a search, with the nodes that the client has learned of. -/
structure SearchEnd where
  result : Except TransportError (Item × LookupStats)
  learned : List Peer

namespace Search

/-- A search whose lookup has not asked any node. -/
def ofLookup (l : Lookup) : Search := ⟨l, [], none⟩

/-- The search after a step of its lookup. -/
def follow (s : Search) (step : LookupStep) : Search :=
  { s with lookup := step.lookup, mailbox := s.mailbox ++ step.events }

/-- The first queries. -/
def begin (s : Search) : Search × List Peer :=
  let step := s.lookup.begin
  (s.follow step, step.queries)

/-- A query ends. -/
def answer (s : Search) (id : NodeId) (reply : Option GetReply) : Search × List Peer :=
  let step := s.lookup.answer id reply
  (s.follow step, step.queries)

/-- Whether an item takes the place of the best one so far; an item without a sequence number is
    below all others. -/
def improves (item : Item) : Option Item → Bool
  | none => true
  | some best =>
    match best.seq, item.seq with
    | none, _ => true
    | some _, none => false
    | some b, some s => b ≤ s

/-- The end of a search that has heard all. -/
def result (s : Search) : Except TransportError (Item × LookupStats) :=
  match s.best with
  | some item => .ok (item, s.lookup.stats)
  | none => .error (.notFound s.lookup.stats)

/-- Reads one report. -/
def receive (s : Search) : Search ⊕ SearchEnd :=
  match s.mailbox with
  | [] => .inl s
  | .candidate item :: rest =>
    let s := { s with mailbox := rest }
    if !item.isMutable then .inr ⟨.ok (item, s.lookup.stats), []⟩
    else if improves item s.best then .inl { s with best := some item }
    else .inl s
  | .stalled closest :: rest =>
    let s := { s with mailbox := rest }
    .inr ⟨s.result, closest⟩

/-- Reads up to `n` reports. -/
def receiveUpTo : Nat → Search → Search ⊕ SearchEnd
  | 0, s => .inl s
  | n + 1, s =>
    match s.receive with
    | .inl s => receiveUpTo n s
    | .inr e => .inr e

/-- Reads all reports. -/
def receiveAll (s : Search) : Search ⊕ SearchEnd := receiveUpTo s.mailbox.length s

/-- The deadline comes. -/
def expire (s : Search) : SearchEnd := ⟨.error (.timeout s.lookup.stats), []⟩

end Search

end SignedRecords
