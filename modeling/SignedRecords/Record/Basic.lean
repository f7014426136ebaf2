import SignedRecords.Record.Id
import SignedRecords.Record.Response

/-!
# Records

A record is a value that the owner of a key has signed together with a sequence number. A valid
record has a value of at most 1000 octets, a sequence number other than zero, and a signature that
holds with no salt; the checks are made in this order.

Records are equal when all four fields are.
-/

namespace SignedRecords

/-- A signed value under its owner's key. -/
structure Record where
  key : Octets 32
  value : Bytes
  signature : Octets 64
  sequence : Sequence
  deriving DecidableEq

namespace Record

/-! ## 1. Validity -/

/-- Whether the signature holds. -/
def signatureHolds (r : Record) : Bool :=
  itemSignatureHolds r.key [] r.sequence r.value r.signature.toList

/-- The first thing that is wrong with a record. -/
def validate (r : Record) : Except RecordError Unit :=
  if maxValueSize < r.value.length then .error (.valueTooLarge r.value.length)
  else if r.sequence = 0 then .error .missingSequence
  else if r.signatureHolds then .ok ()
  else .error .invalidSignature

/-- Builds a record from its parts; widths are checked before the signature. -/
def make (key value signature : Bytes) (sequence : Sequence) : Except RecordError Record :=
  match Octets.ofBytes? 32 key with
  | none => .error (.invalidKeyLength key.length)
  | some k =>
    if maxValueSize < value.length then .error (.valueTooLarge value.length)
    else
      match Octets.ofBytes? 64 signature with
      | none => .error (.invalidSignatureLength signature.length)
      | some s =>
        if sequence = 0 then .error .missingSequence
        else
          let record : Record := ⟨k, value, s, sequence⟩
          if record.signatureHolds then .ok record else .error .invalidSignature

/-- Signs a value. -/
def sign (pair : KeyPair) (value : Bytes) (sequence : Sequence) : Except RecordError Record :=
  make pair.publicOctets.toList value (signItem pair [] sequence value).toList sequence

/-! ## 2. Projections -/

/-- The canonical id. -/
def id (r : Record) : String := recordId r.key

/-- What a lookup of the record answers. -/
def response (r : Record) : Response := ⟨r.value, r.sequence, r.signature⟩

/-- The record of a response under a key. -/
def ofResponse (key : Bytes) (r : Response) : Except RecordError Record :=
  make key r.value r.signature.toList r.sequence

/-- The stored form of a record. -/
def toWire (r : Record) : Bytes := r.response.toBytes

/-- Reads the stored form of a record under a key. -/
def ofWire (key wire : Bytes) : Except RecordError Record :=
  match Response.ofBytes wire with
  | .error e => .error e
  | .ok response => ofResponse key response

/-! ## 3. How records are shown -/

/-- All fields of a record. -/
def text (r : Record) : String :=
  "Record\x7bK=" ++ r.id ++ " V=" ++ Hex.encode r.value ++ " Sig=" ++
    Hex.encode r.signature.toList ++ s!" Seq={r.sequence.toInt}" ++ "\x7d"

/-- A short form of a record. -/
def summary (r : Record) : String :=
  s!"Record({r.id}, seq={r.sequence.toInt}, {r.value.length} bytes)"

end Record

end SignedRecords
