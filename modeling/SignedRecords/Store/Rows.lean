import SignedRecords.Store.Error
import SignedRecords.Store.Table

/-!
# Stores of rows

Two tables of octets: the wire form of a record under the octets of its id, and the failure ledger
under the octets of the ids, each row a text and a count. Everything that is read is checked
again, so rows that something else wrote are refused when they are read, skipped when they are
listed, and never taken for records.

A listing counts the rows it skips: they fill the page, and the next page starts after the last
one. Tokens are texts; a key that is no text gives a token that differs from it.
-/

namespace SignedRecords

/-- A store of rows. -/
structure RowStore where
  records : Table Bytes
  failed : Table Bytes

namespace RowStore

/-- A store without rows. -/
def empty : RowStore := ⟨.empty, .empty⟩

/-! ## 1. Rows -/

/-- Reads a row as a record under the key that its own key names. -/
def readRow (key wire : Bytes) : Except StoreError Record :=
  let id := Utf8.lossy key
  match readRecordId id with
  | .error e => .error (.corrupt id e)
  | .ok owner =>
    match Record.ofWire owner.toList wire with
    | .error e => .error (.corrupt id e)
    | .ok record => .ok record

/-- The row of a failed record. -/
def failedRow (f : FailedRecord) : Bytes :=
  Codec.writeText f.id ++ Bytes.littleEndian 4 f.count.toNat

/-- Takes a failed record from the front of a row. -/
def readFailed : Codec.Reader FailedRecord := do
  let id ← Codec.readText
  let count ← Codec.readNumber 4
  return ⟨id, UInt32.ofNat count⟩

/-- Reads a row of the failure ledger. -/
def readFailedRow (row : Bytes) : Except StoreError FailedRecord :=
  match readFailed.run row with
  | .ok (f, _) => .ok f
  | .error e => .error (.unreadable e)

/-! ## 2. Records -/

/-- Reads the row of a key, if there is one. -/
def readKey (s : RowStore) (key : Bytes) : Except StoreError (Option Record) :=
  match s.records.get? key with
  | none => .ok none
  | some wire => (readRow key wire).map some

/-- Writes a record if it is newer. -/
def write (s : RowStore) (r : Record) : Except StoreError RowStore :=
  let key := Bytes.ofText r.id
  match s.readKey key with
  | .error e => .error e
  | .ok stored =>
    match arbitrate stored r with
    | .error e => .error e
    | .ok false => .ok s
    | .ok true => .ok { s with records := s.records.insert key r.toWire }

/-- The record of an id. -/
def read (s : RowStore) (id : String) : Except StoreError (Option Record) :=
  s.readKey (Bytes.ofText id)

/-- One page of records, in the order of their keys, after a token. -/
def list (s : RowStore) (token : Option String) (pageSize : Nat) : Page :=
  let scanned := (s.records.after (token.map Bytes.ofText)).take pageSize
  let records := scanned.filterMap fun row => (readRow row.1 row.2).toOption
  let next :=
    if 0 < pageSize ∧ scanned.length = pageSize then
      scanned.getLast?.map fun row => Utf8.lossy row.1
    else none
  ⟨records, next⟩

/-! ## 3. The failure ledger -/

/-- Adds failures to the ledger. -/
def writeFailed (s : RowStore) (f : FailedRecord) : Except StoreError RowStore :=
  let key := Bytes.ofText f.id
  let before : Except StoreError UInt32 :=
    match s.failed.get? key with
    | none => .ok 0
    | some row => (readFailedRow row).map (·.count)
  match before with
  | .error e => .error e
  | .ok count =>
    .ok { s with failed := s.failed.insert key (failedRow ⟨f.id, saturatingAdd count f.count⟩) }

/-- The ledger, in the order of the keys. -/
def listFailed (s : RowStore) : Except StoreError (List FailedRecord) :=
  s.failed.rows.mapM fun row => readFailedRow row.2

end RowStore

end SignedRecords
