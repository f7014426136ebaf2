import SignedRecords.Record.Error

/-!
# Record ids

A record is named by the z-base-32 text of its owner's public key. Several texts name one key:
case is ignored, and the last letter carries four bits that fill no octet. The canonical one is
the text that `recordId` writes, and only it is used to store and cache.
-/

namespace SignedRecords

/-- The canonical id of a key. -/
def recordId (key : Octets 32) : String := ZBase32.encode key.toList

/-- Reads z-base-32 text. -/
def readZBase32 (text : String) : Except RecordError Bytes :=
  match ZBase32.decode text with
  | .error b => .error (.invalidId (.invalidCharacter b))
  | .ok bs => .ok bs

/-- The key that a text names. -/
def readRecordId (text : String) : Except RecordError (Octets 32) :=
  if text.isEmpty then .error (.invalidId .empty)
  else
    match readZBase32 text with
    | .error e => .error e
    | .ok bs =>
      match Octets.ofBytes? 32 bs with
      | none => .error (.invalidId (.wrongLength bs.length))
      | some key => .ok key

end SignedRecords
