/-!
# Settings of the DHT

How wide lookups are, how long nodes are waited for, and how long nodes and items are kept. Times
are in milliseconds.
-/

namespace SignedRecords

/-- The settings of a DHT node. -/
structure DhtConfig where
  /-- The size of buckets and replies, and the number of nodes that keep an item. -/
  k : Nat
  /-- The number of queries of a lookup that may be outstanding. -/
  alpha : Nat
  /-- How long one query may take. -/
  queryTimeout : Nat
  /-- How long a node that was not heard from stays in a full bucket. -/
  nodeTtl : Nat
  /-- How long an item is kept. -/
  itemTtl : Nat
  deriving DecidableEq, Repr

/-- The usual settings. -/
def DhtConfig.standard : DhtConfig :=
  { k := 8, alpha := 15, queryTimeout := 2000, nodeTtl := 900000, itemTtl := 7200000 }

end SignedRecords
