import SignedRecords.Dht.Message.Codec
import SignedRecords.Record.Basic

/-!
# What can be wrong with a store

The causes, one wording for each, and the cause behind a cause.
-/

namespace SignedRecords

/-- Why a store did not do what was asked. -/
inductive StoreError where
  /-- A row of the failure ledger does not read. -/
  | unreadable (error : Codec.ReadError)
  /-- A row is no record. -/
  | corrupt (id : String) (source : RecordError)
  /-- The stored record has a sequence number that is not below the one attempted. -/
  | staleSequence (stored attempted : Sequence)
  /-- The store did not answer. -/
  | unavailable (reason : String)
  deriving DecidableEq, Repr

namespace StoreError

/-- The wording of a store error. -/
def message : StoreError → String
  | .unreadable e => s!"Serialization error: {e.message}"
  | .corrupt id source => s!"Corrupt record {id}: {source.message}"
  | .staleSequence s a => s!"Stale sequence: stored {s.toInt}, attempted {a.toInt}"
  | .unavailable reason => s!"Storage unavailable: {reason}"

/-- The wordings of the causes behind a store error. -/
def causes : StoreError → List String
  | .corrupt _ source => [source.message]
  | _ => []

end StoreError

/-- How often the announcement of a record has failed. -/
structure FailedRecord where
  id : String
  count : UInt32
  deriving DecidableEq

/-- One page of a listing, and where the next one starts. -/
structure Page where
  records : List Record
  next : Option String

/-- Whether a record is to be written over what is stored: it is when nothing is, it need not be
    when the same record is, and otherwise only a higher sequence number replaces. -/
def arbitrate (stored : Option Record) (incoming : Record) : Except StoreError Bool :=
  match stored with
  | none => .ok true
  | some current =>
    if current = incoming then .ok false
    else if incoming.sequence ≤ current.sequence then
      .error (.staleSequence current.sequence incoming.sequence)
    else .ok true

/-- A sum that stops at the largest word. -/
def saturatingAdd (a b : UInt32) : UInt32 :=
  UInt32.ofNat (min (a.toNat + b.toNat) (UInt32.size - 1))

end SignedRecords
