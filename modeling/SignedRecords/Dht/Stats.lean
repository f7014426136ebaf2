/-!
# What a lookup did

How many nodes a lookup tried and how many of them answered.
-/

namespace SignedRecords

/-- The counts of a lookup. -/
structure LookupStats where
  tried : Nat
  responses : Nat
  deriving DecidableEq, Repr, Inhabited

/-- The text of the counts. -/
def LookupStats.text (s : LookupStats) : String :=
  s!"tried {s.tried} nodes, got {s.responses} responses"

end SignedRecords
