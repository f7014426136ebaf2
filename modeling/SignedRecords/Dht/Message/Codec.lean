import SignedRecords.Dht.Message.Basic
import SignedRecords.Text.Utf8

/-!
# The octets of a message

A fixed layout, least significant octet first: a tag of four octets for the kind of message and
the kind of address, eight octets for every length and number, one octet for a flag or for the
presence of an optional part. Fields follow each other in the order of the message's declaration.
Stamps are whole seconds (8) and nanoseconds (4) since 1970.

Reading takes the fields strictly in order and stops at the first fault; octets after the message
are left over. Nanoseconds of a second or more are carried into the seconds.
-/

namespace SignedRecords.Codec

/-! ## 1. Faults -/

/-- Why octets are no message. -/
inductive ReadError where
  /-- The octets end too early. -/
  | endOfInput
  /-- A text is longer than what is left. -/
  | textTooLong
  /-- No kind of message has this tag. -/
  | messageTag (tag : Nat)
  /-- No kind of address has this tag. -/
  | addressTag (tag : Nat)
  /-- The presence of an optional part is neither 0 nor 1. -/
  | presence (octet : UInt8)
  /-- A flag is neither 0 nor 1. -/
  | flag (octet : UInt8)
  /-- A text is not UTF-8. -/
  | text (fault : Utf8.Fault)
  /-- The seconds of a stamp overflow with its nanoseconds. -/
  | stampCarry
  /-- The seconds of a stamp are beyond the calendar clock. -/
  | stampRange
  deriving DecidableEq, Repr

/-- The wording of a fault. -/
def ReadError.message : ReadError → String
  | .endOfInput => "io error: unexpected end of file"
  | .textTooLong => "io error: "
  | .messageTag n =>
    "invalid value: integer \x60" ++ toString n ++ "\x60, expected variant index 0 <= i < 8"
  | .addressTag n =>
    "invalid value: integer \x60" ++ toString n ++ "\x60, expected \x60V4\x60 or \x60V6\x60"
  | .presence b => s!"tag for enum is not valid, found {b.toNat}"
  | .flag b => s!"invalid u8 while decoding bool, expected 0 or 1, found {b.toNat}"
  | .text f => s!"string is not valid utf8: {f.message}"
  | .stampCarry => "overflow deserializing SystemTime epoch offset"
  | .stampRange => "overflow deserializing SystemTime"

/-- Why a message has no octets. -/
inductive WriteError where
  /-- A stamp lies before 1970. -/
  | beforeEpoch
  deriving DecidableEq, Repr

/-- The wording of a fault. -/
def WriteError.message : WriteError → String
  | .beforeEpoch => "SystemTime must be later than UNIX_EPOCH"

/-! ## 2. Writing -/

/-- A tag. -/
def writeTag (n : Nat) : Bytes := Bytes.littleEndian 4 n

/-- A length or a number. -/
def writeWord (n : Nat) : Bytes := Bytes.littleEndian 8 n

/-- A sequence number. -/
def writeSequence (s : Sequence) : Bytes := writeWord s.toUInt64.toNat

/-- Octets after their number. -/
def writeOctets (bs : Bytes) : Bytes := writeWord bs.length ++ bs

/-- The UTF-8 form of a text after its length. -/
def writeText (text : String) : Bytes := writeOctets (Bytes.ofText text)

/-- An optional part. -/
def writeOption {α : Type} (write : α → Bytes) : Option α → Bytes
  | none => [0]
  | some a => 1 :: write a

/-- A flag. -/
def writeFlag (b : Bool) : Bytes := [if b then 1 else 0]

/-- An address. -/
def writeAddress : Address → Bytes
  | .v4 ip port => writeTag 0 ++ ip.toList ++ Bytes.littleEndian 2 port.toNat
  | .v6 ip port _ _ => writeTag 1 ++ ip.toList ++ Bytes.littleEndian 2 port.toNat

/-- A stamp. -/
def writeStamp (s : Stamp) : Except WriteError Bytes :=
  if s.seconds < 0 then .error .beforeEpoch
  else .ok (writeWord s.seconds.toInt.toNat ++ Bytes.littleEndian 4 s.nanos.val)

/-- A peer. -/
def writePeer (p : Peer) : Except WriteError Bytes :=
  (writeStamp p.lastSeen).map fun seen => p.id.octets.toList ++ writeAddress p.addr ++ seen

/-- Peers after their number. -/
def writePeers (ps : List Peer) : Except WriteError Bytes :=
  (ps.mapM writePeer).map fun parts => writeWord ps.length ++ parts.flatten

/-- An item. -/
def writeItem (i : Item) : Bytes :=
  writeOctets i.value ++ writeOption Octets.toList i.key ++ writeOption writeOctets i.signature ++
    writeOption writeSequence i.seq ++ writeOctets i.salt

/-- The octets of a message. -/
def write : Message → Except WriteError Bytes
  | .ping s i => do return writeTag 0 ++ (← writePeer s) ++ writeWord i.toNat
  | .pong s i => do return writeTag 1 ++ (← writePeer s) ++ writeWord i.toNat
  | .findNode s t i => do
    return writeTag 2 ++ (← writePeer s) ++ t.octets.toList ++ writeWord i.toNat
  | .foundNodes s ns i => do
    return writeTag 3 ++ (← writePeer s) ++ (← writePeers ns) ++ writeWord i.toNat
  | .get s t k i => do
    return writeTag 4 ++ (← writePeer s) ++ t.octets.toList ++ writeOption writeSequence k ++
      writeWord i.toNat
  | .got s it ns i => do
    return writeTag 5 ++ (← writePeer s) ++ writeOption writeItem it ++ (← writePeers ns) ++
      writeWord i.toNat
  | .put s it i => do
    return writeTag 6 ++ (← writePeer s) ++ writeItem it ++ writeWord i.toNat
  | .stored s ok e i => do
    return writeTag 7 ++ (← writePeer s) ++ writeFlag ok ++ writeOption writeText e ++
      writeWord i.toNat

/-! ## 3. Reading -/

/-- A reader takes octets from the front of what is left. -/
abbrev Reader := StateT Bytes (Except ReadError)

/-- Takes a given number of octets. -/
def takeOctets (n : Nat) : Reader (Octets n) := fun bs =>
  if h : n ≤ bs.length then
    .ok (⟨bs.take n, by simp [List.length_take, Nat.min_eq_left h]⟩, bs.drop n)
  else .error .endOfInput

/-- Takes a number of a given width. -/
def readNumber (width : Nat) : Reader Nat :=
  (fun octets => Bytes.ofLittleEndian octets.toList) <$> takeOctets width

/-- Takes one octet. -/
def readOctet : Reader UInt8
  | [] => .error .endOfInput
  | b :: rest => .ok (b, rest)

/-- Takes a length or a number. -/
def readWord : Reader Nat := readNumber 8

/-- Takes a sequence number. -/
def readSequence : Reader Sequence := (fun n => (UInt64.ofNat n).toInt64) <$> readWord

/-- Takes octets after their number. -/
def readOctets : Reader Bytes := do
  let n ← readWord
  let octets ← takeOctets n
  return octets.toList

/-- Takes a text after its length. -/
def readText : Reader String := do
  let n ← readWord
  let left ← get
  if left.length < n then throw .textTooLong
  let octets ← takeOctets n
  match Utf8.decode octets.toList with
  | .ok text => return text
  | .error fault => throw (.text fault)

/-- Takes an optional part. -/
def readOption {α : Type} (read : Reader α) : Reader (Option α) := do
  match ← readOctet with
  | 0 => return none
  | 1 => return some (← read)
  | b => throw (.presence b)

/-- Takes a flag. -/
def readFlag : Reader Bool := do
  match ← readOctet with
  | 0 => return false
  | 1 => return true
  | b => throw (.flag b)

/-- Takes an id. -/
def readId : Reader NodeId := NodeId.ofOctets <$> takeOctets 20

/-- Takes an address. -/
def readAddress : Reader Address := do
  match ← readNumber 4 with
  | 0 =>
    let ip ← takeOctets 4
    let port ← readNumber 2
    return .v4 ip (UInt16.ofNat port)
  | 1 =>
    let ip ← takeOctets 16
    let port ← readNumber 2
    return .v6 ip (UInt16.ofNat port) 0 0
  | n => throw (.addressTag n)

/-- The stamp of seconds and nanoseconds since 1970. -/
def stampOf (seconds nanos : Nat) : Except ReadError Stamp :=
  let carried := seconds + nanos / nanosPerSecond
  if UInt64.size ≤ carried then .error .stampCarry
  else if Nat.pow 2 63 ≤ carried then .error .stampRange
  else .ok ⟨Int64.ofInt carried, ⟨nanos % nanosPerSecond, Nat.mod_lt _ (by decide)⟩⟩

/-- Takes a stamp. -/
def readStamp : Reader Stamp := do
  let seconds ← readWord
  let nanos ← readNumber 4
  stampOf seconds nanos

/-- Takes a peer. -/
def readPeer : Reader Peer := do
  let id ← readId
  let addr ← readAddress
  let seen ← readStamp
  return ⟨id, addr, seen⟩

/-- Takes `n` parts of one kind. -/
def readMany {α : Type} (read : Reader α) : Nat → Reader (List α)
  | 0 => return []
  | n + 1 => do
    let a ← read
    let rest ← readMany read n
    return a :: rest

/-- Takes peers after their number. -/
def readPeers : Reader (List Peer) := do
  let n ← readWord
  readMany readPeer n

/-- Takes an item. -/
def readItem : Reader Item := do
  let value ← readOctets
  let key ← readOption (takeOctets 32)
  let signature ← readOption readOctets
  let seq ← readOption readSequence
  let salt ← readOctets
  return ⟨value, key, signature, seq, salt⟩

/-- Takes the number of a message. -/
def readMessageId : Reader UInt64 := UInt64.ofNat <$> readWord

/-- Takes what follows the sender in a message with a tag. -/
def readRest (tag : Nat) (sender : Peer) : Reader Message :=
  match tag with
  | 0 => do return .ping sender (← readMessageId)
  | 1 => do return .pong sender (← readMessageId)
  | 2 => do
    let target ← readId
    return .findNode sender target (← readMessageId)
  | 3 => do
    let nodes ← readPeers
    return .foundNodes sender nodes (← readMessageId)
  | 4 => do
    let target ← readId
    let known ← readOption readSequence
    return .get sender target known (← readMessageId)
  | 5 => do
    let item ← readOption readItem
    let nodes ← readPeers
    return .got sender item nodes (← readMessageId)
  | 6 => do
    let item ← readItem
    return .put sender item (← readMessageId)
  | 7 => do
    let success ← readFlag
    let error ← readOption readText
    return .stored sender success error (← readMessageId)
  | n => throw (.messageTag n)

/-- Takes a message. A tag without a kind is refused before the sender is read. -/
def readMessage : Reader Message := do
  let tag ← readNumber 4
  if 8 ≤ tag then throw (.messageTag tag)
  let sender ← readPeer
  readRest tag sender

/-- Reads a message from the front of some octets; the rest is ignored. -/
def read (bs : Bytes) : Except ReadError Message := (·.1) <$> readMessage.run bs

end SignedRecords.Codec
