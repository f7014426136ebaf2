import SignedRecords.Bytes.Basic

/-!
# Caches with a lifetime and a ceiling

A cache keeps octets under texts. An entry lives for `ttl` milliseconds after it was written, and
the entries together never take more than `maxBytes`, counting the octets of keys and values. When
a write goes over the ceiling, the entries written longest ago leave until it fits again; reading
does not count as use. Entries over the limit for one entry are refused.

Entries that are no longer live take room until something drops them: a read of their key, a
write of it, or a purge.
-/

namespace SignedRecords

/-- Why an entry was not cached. -/
inductive CacheLimit where
  /-- The entry takes more octets than one entry may. -/
  | entryTooLarge (size max : Nat)
  deriving DecidableEq, Repr

/-- The wording of a refusal. -/
def CacheLimit.message : CacheLimit → String
  | .entryTooLarge size max => s!"Entry of {size} bytes exceeds the {max} byte entry limit"

/-- A cached value. -/
structure CacheEntry where
  key : String
  value : Bytes
  /-- The first millisecond at which the entry is no longer live. -/
  expiresAt : Nat
  deriving DecidableEq

/-- The octets that a key and a value take. -/
def entrySize (key : String) (value : Bytes) : Nat := key.utf8ByteSize + value.length

/-- The octets that an entry takes. -/
def CacheEntry.size (e : CacheEntry) : Nat := entrySize e.key e.value

/-- Whether an entry is still to be read. -/
def CacheEntry.isLive (e : CacheEntry) (now : Nat) : Bool := now < e.expiresAt

/-- A cache. -/
structure TtlCache where
  /-- Milliseconds that an entry lives. -/
  ttl : Nat
  /-- The most octets of all entries together. -/
  maxBytes : Nat
  /-- The most octets of one entry. -/
  maxEntryBytes : Nat
  /-- The entries, the one written longest ago first. -/
  entries : List CacheEntry
  /-- The octets that the entries take. -/
  bytes : Nat

namespace TtlCache

/-- An empty cache; one entry never takes more than all together. -/
def empty (ttl maxBytes maxEntryBytes : Nat) : TtlCache :=
  ⟨ttl, maxBytes, min maxEntryBytes maxBytes, [], 0⟩

/-- The number of entries, live or not. -/
def size (c : TtlCache) : Nat := c.entries.length

/-- The entry of a key, live or not. -/
def find? (c : TtlCache) (key : String) : Option CacheEntry := c.entries.find? (·.key == key)

/-- Drops the entry of a key. -/
def remove (c : TtlCache) (key : String) : TtlCache :=
  match c.find? key with
  | none => c
  | some e => { c with
      entries := c.entries.eraseP (·.key == key)
      bytes := c.bytes - e.size }

/-- The live value of a key; an entry that is no longer live is dropped. -/
def get (c : TtlCache) (key : String) (now : Nat) : TtlCache × Option Bytes :=
  match c.find? key with
  | none => (c, none)
  | some e => if e.isLive now then (c, some e.value) else (c.remove key, none)

/-- When an entry written now stops being live. -/
def expiryAt (c : TtlCache) (now : Nat) : Nat := now + c.ttl

/-- Drops entries from the front of a list while they take more than `max` octets together;
    answers the entries left and their octets. -/
def shed (max : Nat) : Nat → List CacheEntry → List CacheEntry × Nat
  | bytes, [] => ([], bytes)
  | bytes, e :: rest => if max < bytes then shed max (bytes - e.size) rest else (e :: rest, bytes)

/-- Writes an entry. -/
def set (c : TtlCache) (key : String) (value : Bytes) (now : Nat) : Except CacheLimit TtlCache :=
  let size := entrySize key value
  if c.maxEntryBytes < size then .error (.entryTooLarge size c.maxEntryBytes)
  else
    let c := c.remove key
    let (entries, bytes) :=
      shed c.maxBytes (c.bytes + size) (c.entries ++ [⟨key, value, c.expiryAt now⟩])
    .ok { c with entries, bytes }

/-- Drops the entries that are no longer live and counts them. -/
def purge (c : TtlCache) (now : Nat) : TtlCache × Nat :=
  let dead := c.entries.filter fun e => !e.isLive now
  (dead.foldl (fun c e => c.remove e.key) c, dead.length)

end TtlCache

end SignedRecords
