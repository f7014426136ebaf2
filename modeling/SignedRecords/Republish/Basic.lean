import SignedRecords.Republish.Config
import SignedRecords.Republish.Report
import SignedRecords.Store.Error

/-!
# Republishing a store

A run announces every record of a store again. It reads the store page by page and announces the
records of a page together; when all of them have ended it goes on to the next page. The records
that failed are then announced again one after the other, until one attempt succeeds or the
attempts are used up. Records that used them up are entered into the failure ledger.

A page that cannot be read ends the paging, a size that cannot be read counts as zero, and an
entry into the ledger that fails is passed over. An announcement that is lost altogether counts
as a failed record without further attempts.

`Republish.begin` and the steps after it each answer what the run now waits for.
-/

namespace SignedRecords

/-- How an announcement ends. -/
inductive PutEnd where
  | acknowledged
  | failed
  /-- Nothing will be heard of it. -/
  | lost
  deriving DecidableEq, Repr

/-- What a run waits for. -/
inductive RepublishWait where
  | count
  | list (token : Option String) (pageSize : Nat)
  /-- The announcements of a page, by their numbers on it. -/
  | puts (records : List (Nat × Record))
  /-- Another attempt at a record. -/
  | retry (record : Record)
  | note (failed : FailedRecord)
  /-- Nothing: the run has ended. -/
  | nothing

/-- Where a run stands. -/
inductive RepublishPhase where
  | counting
  | listing (token : Option String)
  /-- The announcements of a page that have not ended, and the token of the next page. -/
  | announcing (waiting : List (Nat × Record)) (next : Option String)
  /-- A record that is announced again after some attempts, and the failures after it. -/
  | retrying (record : Record) (attempts : Nat) (rest : List Record)
  /-- A record that goes into the ledger, and the failures after it. -/
  | noting (rest : List Record)
  | ended

/-- A run. -/
structure Republish where
  config : RepublishConfig
  report : RepublishReport
  /-- The records whose first announcement failed, in the order of the failures. -/
  failures : List Record
  phase : RepublishPhase

namespace Republish

/-- The records of a page. -/
def pageSize (r : Republish) : Nat := max r.config.batchSize 1

/-- A run that has not begun. -/
def fresh (config : RepublishConfig) : Republish :=
  ⟨config, ⟨0, 0, 0, 0, 0⟩, [], .counting⟩

/-- The run begins. -/
def begin (config : RepublishConfig) : Republish × RepublishWait := (fresh config, .count)

/-- Asks for the page after a token. -/
def askPage (r : Republish) (token : Option String) : Republish × RepublishWait :=
  ({ r with phase := .listing token }, .list token r.pageSize)

/-- Goes on with the failures that are left; `attempts` have been made at the first one. -/
def settle (r : Republish) (attempts : Nat) : List Record → Republish × RepublishWait
  | [] => ({ r with phase := .ended }, .nothing)
  | record :: rest =>
    if attempts < r.config.maxAttempts then
      ({ r with phase := .retrying record attempts rest }, .retry record)
    else
      ({ r with
          phase := .noting rest
          report := { r.report with failed := r.report.failed + 1 } },
        .note ⟨record.id, UInt32.ofNat attempts⟩)

/-- The paging has ended. -/
def endPaging (r : Republish) : Republish × RepublishWait :=
  { r with failures := [] }.settle 1 r.failures

/-- Goes on after a page. -/
def afterPage (r : Republish) : Option String → Republish × RepublishWait
  | some token => r.askPage (some token)
  | none => r.endPaging

/-- The size of the store is known. -/
def counted (r : Republish) (count : Except StoreError Nat) : Republish × RepublishWait :=
  let n := match count with
    | .ok n => n
    | .error _ => 0
  { r with report := { r.report with recordCount := n } }.askPage none

/-- A page has been read. -/
def listed (r : Republish) (page : Except StoreError Page) : Republish × RepublishWait :=
  match page with
  | .error _ => r.endPaging
  | .ok page =>
    match page.records with
    | [] => r.afterPage page.next
    | records =>
      let numbered := records.zipIdx.map fun (record, i) => (i, record)
      ({ r with
          phase := .announcing numbered page.next
          report := { r.report with
            batches := r.report.batches + 1
            seen := r.report.seen + records.length } },
        .puts numbered)

/-- Notes how the first announcement of a record ended. -/
def tally (r : Republish) (record : Record) : PutEnd → Republish
  | .acknowledged => { r with report := { r.report with succeeded := r.report.succeeded + 1 } }
  | .failed => { r with failures := r.failures ++ [record] }
  | .lost => { r with report := { r.report with failed := r.report.failed + 1 } }

/-- An announcement of the page has ended; nothing new is waited for until all have. -/
def announced (r : Republish) (number : Nat) (how : PutEnd) : Republish × Option RepublishWait :=
  match r.phase with
  | .announcing waiting next =>
    match waiting.find? (·.1 == number) with
    | none => (r, none)
    | some (_, record) =>
      let left := waiting.filter (·.1 != number)
      let r := { r.tally record how with phase := .announcing left next }
      if left.isEmpty then
        let (r, wait) := r.afterPage next
        (r, some wait)
      else (r, none)
  | _ => (r, none)

/-- Another attempt at a record has ended. -/
def retried (r : Republish) (ok : Bool) : Republish × RepublishWait :=
  match r.phase with
  | .retrying record attempts rest =>
    if ok then
      { r with report := { r.report with succeeded := r.report.succeeded + 1 } }.settle 1 rest
    else r.settle (attempts + 1) (record :: rest)
  | _ => (r, .nothing)

/-- A record has been entered into the ledger, or not. -/
def noted (r : Republish) : Republish × RepublishWait :=
  match r.phase with
  | .noting rest => r.settle 1 rest
  | _ => (r, .nothing)

/-- Whether the run has ended. -/
def hasEnded (r : Republish) : Bool :=
  match r.phase with
  | .ended => true
  | _ => false

end Republish

end SignedRecords
