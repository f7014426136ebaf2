import SignedRecords.Store.Memory
import SignedRecords.Store.Rows

/-!
# Record stores

The two kinds of store behind one interface. Records are kept under their ids and replaced only by
records with a higher sequence number.
-/

namespace SignedRecords

/-- A record store. -/
inductive Store where
  | memory (store : MemoryStore)
  | rows (store : RowStore)

namespace Store

/-- Writes a record if it is newer. -/
def write (s : Store) (r : Record) : Except StoreError Store :=
  match s with
  | .memory m => (m.write r).map .memory
  | .rows t => (t.write r).map .rows

/-- The record of an id. -/
def read (s : Store) (id : String) : Except StoreError (Option Record) :=
  match s with
  | .memory m => .ok (m.read id)
  | .rows t => t.read id

/-- One page of records, in the order of their ids, after a token. -/
def list (s : Store) (token : Option String) (pageSize : Nat) : Page :=
  match s with
  | .memory m => m.list token pageSize
  | .rows t => t.list token pageSize

/-- The number of records. -/
def count : Store → Nat
  | .memory m => m.records.size
  | .rows t => t.records.size

/-- Adds failures to the ledger. -/
def writeFailed (s : Store) (f : FailedRecord) : Except StoreError Store :=
  match s with
  | .memory m => .ok (.memory (m.writeFailed f))
  | .rows t => (t.writeFailed f).map .rows

/-- The ledger, in the order of the ids. -/
def listFailed : Store → Except StoreError (List FailedRecord)
  | .memory m => .ok m.listFailed
  | .rows t => t.listFailed

/-- The number of failed records. -/
def failedCount : Store → Nat
  | .memory m => m.failed.size
  | .rows t => t.failed.size

/-- The writes that changed a record, where they are counted. -/
def writeCount? : Store → Option Nat
  | .memory m => some m.writes
  | .rows _ => none

/-- All pages from a token on, at most `limit` of them. -/
def pages (s : Store) (pageSize : Nat) (token : Option String) : Nat → List Page
  | 0 => []
  | limit + 1 =>
    let page := s.list token pageSize
    match page.next with
    | none => [page]
    | some next => page :: s.pages pageSize (some next) limit

end Store

end SignedRecords
