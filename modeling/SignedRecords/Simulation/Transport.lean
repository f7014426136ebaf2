import SignedRecords.Republish.Basic
import SignedRecords.Simulation.Client

/-!
# Transports of a simulation

What carries the puts and lookups of the record service: a script, which says beforehand how each
call ends and when, or a client in a simulated network. Calls have numbers; a call ends at most
once, and one that was cancelled does not end at all.
-/

namespace SignedRecords.Simulation

/-- How a call of a transport ends. -/
inductive TransportOutcome where
  | put (how : PutEnd)
  | got (result : Except TransportError FullGet)

/-! ## 1. Scripts -/

/-- What a script does with a call. -/
inductive ScriptedResult where
  | succeeds
  | finds (full : FullGet)
  | fails (error : TransportError)
  | hangs
  | breaksDown

/-- An entry of a script: after some milliseconds the call ends. -/
structure ScriptEntry where
  delay : Nat
  result : ScriptedResult

/-- What is still to come for some ids, and for all other ones. -/
structure Script where
  byId : List (String × List ScriptEntry)
  others : List ScriptEntry

/-- The entries after the next call; the last entry stays. -/
def advanceEntries : List ScriptEntry → List ScriptEntry
  | _ :: e :: rest => e :: rest
  | entries => entries

/-- The entry of the next call about an id. -/
def Script.next (s : Script) (id : String) : Option ScriptEntry × Script :=
  match s.byId.find? (·.1 == id) with
  | some (_, entries) =>
    (entries.head?, { s with
      byId := s.byId.map fun row => if row.1 = id then (id, advanceEntries row.2) else row })
  | none => (s.others.head?, { s with others := advanceEntries s.others })

/-- A transport that follows a script. -/
structure ScriptedTransport where
  puts : Script
  gets : Script
  /-- The calls that were made, with their times, the last one first. -/
  calls : List (Nat × String)

/-- The calls after the first `n`, by time and wording. -/
def ScriptedTransport.callsSince (s : ScriptedTransport) (n : Nat) : List (Nat × String) :=
  (s.calls.take (s.calls.length - n)).mergeSort fun a b =>
    a.1 < b.1 || (a.1 == b.1 && !(b.2 < a.2))

/-- How a scripted put ends. -/
def ScriptedResult.putEnd? : ScriptedResult → Option PutEnd
  | .succeeds | .finds _ => some .acknowledged
  | .fails _ => some .failed
  | .hangs => none
  | .breaksDown => some .lost

/-- How a scripted lookup ends. -/
def ScriptedResult.got? : ScriptedResult → Option (Except TransportError FullGet)
  | .finds full => some (.ok full)
  | .fails e => some (.error e)
  | .succeeds => some (.error (.notFound ⟨2, 1⟩))
  | .hangs | .breaksDown => none

/-! ## 2. Transports -/

/-- A transport. -/
inductive Transport where
  | scripted (script : ScriptedTransport)
  | dht (clients : Clients) (self : Peer)

/-- What is due in a call. -/
inductive TransportEvent where
  /-- The call ends as the script said. -/
  | ends (outcome : TransportOutcome)
  | client (event : CallEvent)

/-- A transport after a step, with the alarms it set and the call that it ended. -/
structure TransportStep where
  transport : Transport
  alarms : List (Alarm (Nat × TransportEvent))
  ended : Option (Nat × TransportOutcome)

namespace Transport

/-- The calls that were made so far. -/
def callCount : Transport → Nat
  | .scripted s => s.calls.length
  | .dht clients _ => clients.sent.length

/-- What the outcome of a client's call means. -/
def outcomeOf : Outcome → TransportOutcome
  | .searched result => .got (result.map fun found => .ofItem found.1)
  | .put (.ok _) => .put .acknowledged
  | .put (.error _) => .put .failed
  | .lookedUp .. => .got (.error .noNodes)

/-- The transport after its client went on. -/
def follow (self : Peer) (p : Progress) : TransportStep :=
  { transport := .dht p.clients self
    alarms := p.alarms.map (·.map fun e => (e.1, .client e.2))
    ended := p.ended.map fun e => (e.1, outcomeOf e.2) }

/-- The end of a scripted call, if there is one. -/
def ending (rank : Rank) (now number : Nat) (delay : Nat) :
    Option TransportOutcome → List (Alarm (Nat × TransportEvent))
  | some outcome => [⟨now + delay, rank, (number, .ends outcome)⟩]
  | none => []

/-- Starts a put; the end of a scripted one has the given rank. -/
def put (t : Transport) (rank : Rank) (now number timeout : Nat) (record : Record) :
    TransportStep :=
  match t with
  | .scripted s =>
    let (entry, puts) := s.puts.next record.id
    let entry := entry.getD ⟨0, .succeeds⟩
    let line := s!"put {record.id} {record.sequence.toInt}"
    ⟨.scripted { s with puts, calls := (now, line) :: s.calls },
      ending rank now number entry.delay (entry.result.putEnd?.map .put), none⟩
  | .dht clients self => follow self (clients.startCall self now number timeout (.put record.item))

/-- Starts a lookup of a record id; the end of a scripted one has the given rank. -/
def get (t : Transport) (rank : Rank) (now number timeout : Nat) (id : String) : TransportStep :=
  match t with
  | .scripted s =>
    let (entry, gets) := s.gets.next id
    let entry := entry.getD ⟨0, .fails (.notFound ⟨2, 1⟩)⟩
    ⟨.scripted { s with gets, calls := (now, s!"get {id}") :: s.calls },
      ending rank now number entry.delay (entry.result.got?.map .got), none⟩
  | .dht clients self =>
    match targetOfId id with
    | .ok target => follow self (clients.startCall self now number timeout (.search target none))
    | .error e => ⟨t, [], some (number, .got (.error e))⟩

/-- Something happens to a call. -/
def handle (t : Transport) (now number : Nat) (event : TransportEvent) : TransportStep :=
  match event, t with
  | .ends outcome, _ => ⟨t, [], some (number, outcome)⟩
  | .client e, .dht clients self => follow self (clients.handle now number e)
  | .client _, .scripted _ => ⟨t, [], none⟩

/-- Gives up a call. -/
def cancel (t : Transport) (number : Nat) : Transport :=
  match t with
  | .scripted _ => t
  | .dht clients self => .dht (clients.drop number) self

end Transport

end SignedRecords.Simulation
