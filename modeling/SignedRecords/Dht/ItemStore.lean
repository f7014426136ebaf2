import SignedRecords.Dht.Item
import SignedRecords.Time.Stamp

/-!
# Item stores

The items that a node keeps for others, one for each target, until their lifetime is over. A put
starts a new lifetime. As long as an item lives, only itself or an item with a higher sequence
number takes its place; an item without a sequence number always does.

An item is expired at the end of its lifetime, whether or not it has been swept out.
-/

namespace SignedRecords

/-- Why an item was not kept. -/
inductive KeepError where
  /-- The item is not well formed. -/
  | invalidItem
  /-- A live item has a sequence number that is not below the one attempted. -/
  | staleSequence (current attempted : Sequence)
  deriving DecidableEq, Repr

/-- The wording of a refusal. -/
def KeepError.message : KeepError → String
  | .invalidItem => "Item failed verification"
  | .staleSequence c a =>
    s!"Sequence number less than current: stored {c.toInt}, got {a.toInt}"

/-- An item with the end of its lifetime, in nanoseconds since 1970. -/
structure KeptItem where
  item : Item
  expiry : Int
  deriving DecidableEq

/-- Whether the lifetime of an item is over. -/
def KeptItem.isExpired (k : KeptItem) (now : Stamp) : Bool := k.expiry ≤ now.sinceEpoch

/-- The items of a node, by target. -/
structure ItemStore where
  /-- Milliseconds that an item is kept. -/
  ttl : Nat
  /-- The items, one for each target. -/
  entries : List (NodeId × KeptItem)

namespace ItemStore

/-- A store without items. -/
def empty (ttl : Nat) : ItemStore := ⟨ttl, []⟩

/-- What is kept for a target, live or not. -/
def lookup (s : ItemStore) (target : NodeId) : Option KeptItem :=
  (s.entries.find? (·.1 == target)).map (·.2)

/-- The sequence number of an item; an item without one is below all others. -/
def rank (item : Item) : Sequence := item.seq.getD Int64.minValue

/-- The live item that stands in the way of a new one, as the two sequence numbers. -/
def conflict? (s : ItemStore) (item : Item) (now : Stamp) : Option (Sequence × Sequence) :=
  match s.lookup item.target, item.seq with
  | some kept, some attempted =>
    if !kept.isExpired now ∧ kept.item ≠ item ∧ attempted ≤ rank kept.item then
      some (rank kept.item, attempted)
    else none
  | _, _ => none

/-- Keeps an item. -/
def put (s : ItemStore) (item : Item) (now : Stamp) : Except KeepError ItemStore :=
  if !item.verify then .error .invalidItem
  else
    match s.conflict? item now with
    | some (current, attempted) => .error (.staleSequence current attempted)
    | none =>
      let kept : KeptItem := ⟨item, now.sinceEpoch + (s.ttl * nanosPerMilli : Nat)⟩
      .ok { s with
        entries := (item.target, kept) :: s.entries.filter (·.1 != item.target) }

/-- Whether an item is no newer than what is known. -/
def alreadyKnown (item : Item) (known : Option Sequence) : Bool :=
  match item.seq, known with
  | some s, some k => s ≤ k
  | _, _ => false

/-- The live item of a target, unless its sequence number is not above a known one. -/
def get (s : ItemStore) (target : NodeId) (known : Option Sequence) (now : Stamp) : Option Item :=
  match s.lookup target with
  | none => none
  | some kept =>
    if kept.isExpired now || alreadyKnown kept.item known then none else some kept.item

/-- Sweeps out the expired items and counts them. -/
def removeExpired (s : ItemStore) (now : Stamp) : ItemStore × Nat :=
  let live := s.entries.filter fun e => !e.2.isExpired now
  ({ s with entries := live }, s.entries.length - live.length)

/-- Forgets all items. -/
def clear (s : ItemStore) : ItemStore := { s with entries := [] }

/-- The number of items, live or not. -/
def size (s : ItemStore) : Nat := s.entries.length

end ItemStore

end SignedRecords
