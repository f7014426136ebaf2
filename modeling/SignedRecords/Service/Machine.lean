import SignedRecords.Republish.Basic
import SignedRecords.Service.Basic

/-!
# The service with its calls

Any number of calls and of puts in the background at once. Calls run in pieces, and between two
pieces anything may happen. A piece ends where the program awaits: the store, the lookup, or the
end of the call. What lies between two awaits is one piece, such as caching a response once the
store has written, although calls on several threads could come in between. Each event is one piece
of one call, the end of one put, or a purge of the caches; the events may come in any order. Events
of calls and puts that there are not, or that wait for something else, change nothing.
-/

namespace SignedRecords

/-- The service with the calls and puts that have not ended. -/
structure ServiceMachine where
  service : Service
  /-- The calls that wait, by their numbers. -/
  calls : List (Nat × Waiting)
  /-- The puts in the background, by their numbers. -/
  puts : List (Nat × Record)
  /-- The number of the next put. -/
  nextPut : Nat

/-- What can happen. -/
inductive ServiceEvent where
  | publish (call : Nat) (id : String) (record : Record)
  | get (call : Nat) (id : String)
  /-- The store call that a call waits for has its turn. -/
  | store (call : Nat) (turn : StoreTurn)
  /-- The lookup that a call waits for ends. -/
  | lookup (call : Nat) (turn : LookupTurn)
  /-- A put in the background ends. -/
  | put (number : Nat) (how : PutEnd)
  /-- Entries that are no longer live are swept out of the caches. -/
  | purge

/-- What an event leads to. -/
inductive ServiceAction where
  | replies (call : Nat) (reply : Reply)
  | waits (call : Nat) (for' : Waiting)
  /-- A put in the background starts. -/
  | puts (number : Nat) (record : Record)
  deriving DecidableEq

namespace ServiceMachine

/-- A service without calls. -/
def ofService (s : Service) : ServiceMachine := ⟨s, [], [], 0⟩

/-- What a call waits for. -/
def waiting? (m : ServiceMachine) (call : Nat) : Option Waiting :=
  (m.calls.find? (·.1 == call)).map (·.2)

/-- The machine after a piece of a call. -/
def follow (m : ServiceMachine) (call : Nat) (s : Service) :
    CallStep → ServiceMachine × List ServiceAction
  | .replies reply =>
    ({ m with service := s, calls := m.calls.filter (·.1 != call) }, [.replies call reply])
  | .waits for' =>
    ({ m with service := s, calls := (call, for') :: m.calls.filter (·.1 != call) },
      [.waits call for'])

/-- The machine after a piece of a call that may start a put. -/
def followPut (m : ServiceMachine) (call : Nat) (piece : Service × CallStep × Option Record) :
    ServiceMachine × List ServiceAction :=
  let (m, actions) := m.follow call piece.1 piece.2.1
  match piece.2.2 with
  | none => (m, actions)
  | some record =>
    ({ m with puts := m.puts ++ [(m.nextPut, record)], nextPut := m.nextPut + 1 },
      actions ++ [.puts m.nextPut record])

/-- The service after a put has ended; of a lost one nothing is heard. -/
def settlePut (s : Service) : PutEnd → Service
  | .acknowledged => s.putEnded true
  | .failed => s.putEnded false
  | .lost => s

/-- One event. -/
def step (m : ServiceMachine) (now : Nat) : ServiceEvent → ServiceMachine × List ServiceAction
  | .publish call id record =>
    let (s, next) := m.service.publish now id record
    m.follow call s next
  | .get call id =>
    let (s, next) := m.service.get now id
    m.follow call s next
  | .store call turn =>
    match m.waiting? call with
    | some (.write id record) => m.followPut call (m.service.written now id record turn)
    | some (.read id) => m.followPut call (m.service.readBack now id turn)
    | _ => (m, [])
  | .lookup call turn =>
    match m.waiting? call with
    | some (.lookup id) =>
      let (s, next) := m.service.lookedUp now id turn
      m.follow call s next
    | _ => (m, [])
  | .put number how =>
    if m.puts.any (·.1 == number) then
      ({ m with
          service := settlePut m.service how
          puts := m.puts.filter (·.1 != number) }, [])
    else (m, [])
  | .purge =>
    let s := m.service
    ({ m with service := { s with
        responses := (s.responses.purge now).1
        negative := (s.negative.purge now).1 } }, [])

end ServiceMachine

end SignedRecords
