import SignedRecords.Net.Address
import SignedRecords.Time.Stamp

/-!
# Requests that wait for a response

What is kept of a request that was sent: whom it asked, how long it may wait, and when it was
sent.
-/

namespace SignedRecords

/-- A request that was sent. -/
structure PendingRequest where
  /-- The address that was asked. -/
  target : Address
  /-- Milliseconds that the request may wait. -/
  wait : Nat
  sentAt : Stamp
  deriving DecidableEq

/-- Whether a request has waited for longer than it may. -/
def PendingRequest.isExpired (r : PendingRequest) (now : Stamp) : Bool :=
  now.olderThan r.sentAt r.wait

end SignedRecords
