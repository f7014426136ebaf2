import SignedRecords.Republish.Basic
import SignedRecords.Service.Basic
import SignedRecords.Store.Scan

/-!
# A republish beside its store

A run with the store that it reads and with what it waits for. The store calls of the run have
their turns, the announcements of a page end in any order, and meanwhile others write to the store.
Events that the run does not wait for change nothing but the store.

Every step answers what the run has done in it, in the order of time.
-/

namespace SignedRecords

/-- A run with its store, and what the run waits for. -/
structure RepublishMachine where
  store : Store
  run : Republish
  wait : RepublishWait

/-- What can happen. -/
inductive RepublishEvent where
  /-- Somebody else tries to write a record to the store. -/
  | write (record : Record)
  /-- The store call that the run waits for has its turn. -/
  | store (turn : StoreTurn)
  /-- An announcement of a page ends. -/
  | announced (number : Nat) (how : PutEnd)
  /-- Another attempt at a record ends. -/
  | retried (acknowledged : Bool)

/-- What a run does and hears. -/
inductive RepublishDeed where
  /-- The store has answered with a page, or not. -/
  | listed (page : Except StoreError Page)
  /-- The records of a page are announced. -/
  | announces (records : List Record)
  /-- A record is announced once more. -/
  | repeats (record : Record)
  /-- An announcement of a record has ended. -/
  | ended (record : Record) (how : PutEnd)
  /-- The store is asked to add a failure to the ledger. -/
  | notes (failed : FailedRecord)

/-- What a run does in order to wait for something. -/
def RepublishWait.deeds : RepublishWait → List RepublishDeed
  | .puts records => [.announces (records.map (·.2))]
  | .retry record => [.repeats record]
  | .note failed => [.notes failed]
  | .count | .list .. | .nothing => []

/-- The record of an announcement that has not ended. -/
def Republish.waiting? (r : Republish) (number : Nat) : Option Record :=
  match r.phase with
  | .announcing waiting _ => (waiting.find? (·.1 == number)).map (·.2)
  | _ => none

namespace RepublishMachine

/-- A run begins. -/
def start (store : Store) (config : RepublishConfig) : RepublishMachine :=
  let (run, wait) := Republish.begin config
  ⟨store, run, wait⟩

/-- The run goes on after something that it has heard. -/
def goOn (store : Store) (heard : List RepublishDeed) (next : Republish × RepublishWait) :
    RepublishMachine × List RepublishDeed :=
  (⟨store, next.1, next.2⟩, heard ++ next.2.deeds)

/-- The store call that the run waits for has its turn. An entry into the ledger that fails
    changes nothing. -/
def storeTurn (m : RepublishMachine) (turn : StoreTurn) :
    RepublishMachine × List RepublishDeed :=
  match m.wait with
  | .count => goOn m.store [] (m.run.counted (turn.run (.ok m.store.count)))
  | .list token pageSize =>
    let page := turn.run (.ok (m.store.list token pageSize))
    goOn m.store [.listed page] (m.run.listed page)
  | .note failed =>
    goOn ((turn.run (m.store.writeFailed failed)).toOption.getD m.store) [] m.run.noted
  | .puts _ | .retry _ | .nothing => (m, [])

/-- An announcement of a page has ended. -/
def announcementEnds (m : RepublishMachine) (number : Nat) (how : PutEnd) :
    RepublishMachine × List RepublishDeed :=
  match m.run.waiting? number with
  | none => (m, [])
  | some record =>
    match m.run.announced number how with
    | (run, some wait) => goOn m.store [.ended record how] (run, wait)
    | (run, none) => ({ m with run }, [.ended record how])

/-- Another attempt at a record has ended. -/
def attemptEnds (m : RepublishMachine) (acknowledged : Bool) :
    RepublishMachine × List RepublishDeed :=
  match m.wait with
  | .retry record =>
    goOn m.store [.ended record (if acknowledged then .acknowledged else .failed)]
      (m.run.retried acknowledged)
  | _ => (m, [])

/-- One event. -/
def step (m : RepublishMachine) : RepublishEvent → RepublishMachine × List RepublishDeed
  | .write record => ({ m with store := m.store.attempt record }, [])
  | .store turn => m.storeTurn turn
  | .announced number how => m.announcementEnds number how
  | .retried acknowledged => m.attemptEnds acknowledged

end RepublishMachine

end SignedRecords
