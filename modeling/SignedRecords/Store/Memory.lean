import SignedRecords.Store.Error
import SignedRecords.Store.Table

/-!
# Stores in memory

Records and the failure ledger as they are, under the octets of their ids. Writes that changed a
record are counted.
-/

namespace SignedRecords

/-- A store in memory. -/
structure MemoryStore where
  records : Table Record
  failed : Table FailedRecord
  /-- The writes that changed a record. -/
  writes : Nat

namespace MemoryStore

/-- A store without records. -/
def empty : MemoryStore := ⟨.empty, .empty, 0⟩

/-- Writes a record if it is newer. -/
def write (s : MemoryStore) (r : Record) : Except StoreError MemoryStore :=
  let key := Bytes.ofText r.id
  match arbitrate (s.records.get? key) r with
  | .error e => .error e
  | .ok false => .ok s
  | .ok true => .ok { s with records := s.records.insert key r, writes := s.writes + 1 }

/-- The record of an id. -/
def read (s : MemoryStore) (id : String) : Option Record := s.records.get? (Bytes.ofText id)

/-- The id of the last record of a full page. -/
def nextToken (records : List Record) (pageSize : Nat) : Option String :=
  if 0 < pageSize ∧ records.length = pageSize then records.getLast?.map Record.id else none

/-- One page of records, in the order of their ids, after a token. -/
def list (s : MemoryStore) (token : Option String) (pageSize : Nat) : Page :=
  let records := ((s.records.after (token.map Bytes.ofText)).take pageSize).map (·.2)
  ⟨records, nextToken records pageSize⟩

/-- Adds failures to the ledger. -/
def writeFailed (s : MemoryStore) (f : FailedRecord) : MemoryStore :=
  let key := Bytes.ofText f.id
  let before := (s.failed.get? key).getD ⟨f.id, 0⟩
  let count := saturatingAdd before.count f.count
  { s with failed := s.failed.insert key { before with count } }

/-- The ledger, in the order of the ids. -/
def listFailed (s : MemoryStore) : List FailedRecord := s.failed.rows.map (·.2)

end MemoryStore

end SignedRecords
