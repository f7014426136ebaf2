import SignedRecords.Cache.TtlCache

/-!
# Janitors

A janitor purges a cache again and again, for the first time one period after it was set to work.
Entries that a purge would have dropped are dropped by every later one too, so of the purges in a
stretch of time only the last one matters.
-/

namespace SignedRecords

/-- A janitor at work since a millisecond. -/
structure Janitor where
  since : Nat
  period : Nat

/-- The last purge up to a time. -/
def Janitor.lastPurge? (j : Janitor) (now : Nat) : Option Nat :=
  let purges := (now - j.since) / j.period
  if purges = 0 then none else some (j.since + purges * j.period)

/-- A cache after the time from `before` to `now`, in which janitors were at work. -/
def TtlCache.swept (c : TtlCache) (janitors : List Janitor) (before now : Nat) : TtlCache :=
  janitors.foldl
    (fun c j =>
      match j.lastPurge? now with
      | some t => if before < t then (c.purge t).1 else c
      | none => c) c

end SignedRecords
