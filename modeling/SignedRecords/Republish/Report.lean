/-!
# Reports of a republish

What one run over the store did, and the share of records that were announced.
-/

namespace SignedRecords

/-- The counts of a republish. -/
structure RepublishReport where
  /-- The size of the store when the run began. -/
  recordCount : Nat
  /-- The pages that held records. -/
  batches : Nat
  /-- The records on these pages. -/
  seen : Nat
  succeeded : Nat
  /-- The records that used up their attempts. -/
  failed : Nat
  deriving DecidableEq, Repr, Inhabited

/-- The percentage of records that were announced; all of them when there were none. -/
def successRate (succeeded seen : Nat) : Float :=
  if seen = 0 then 100.0
  else (UInt64.ofNat succeeded).toFloat / (UInt64.ofNat seen).toFloat * 100.0

/-- The percentage of records that a run announced. -/
def RepublishReport.rate (r : RepublishReport) : Float := successRate r.succeeded r.seen

end SignedRecords
