/-!
# Settings of a republish

Times are in milliseconds.
-/

namespace SignedRecords

/-- The settings of a republish. -/
structure RepublishConfig where
  /-- The records of a page, which are announced together; at least one is taken. -/
  batchSize : Nat
  /-- How often a record is announced before it counts as failed; once at least. -/
  maxAttempts : Nat
  /-- How long one announcement may take. -/
  putTimeout : Nat
  deriving DecidableEq, Repr

/-- The usual settings. -/
def RepublishConfig.standard : RepublishConfig :=
  { batchSize := 1000, maxAttempts := 3, putTimeout := 10000 }

end SignedRecords
