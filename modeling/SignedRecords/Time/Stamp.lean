/-!
# Stamps

A moment of the calendar clock: whole seconds since 1970 as a signed word of 64 bits, and the
nanoseconds within the second. Ages are differences in nanoseconds; a stamp that lies ahead has no
age.
-/

namespace SignedRecords

/-- Nanoseconds in a second. -/
abbrev nanosPerSecond : Nat := 1000000000

/-- Nanoseconds in a millisecond. -/
abbrev nanosPerMilli : Nat := 1000000

/-- A moment of the calendar clock. -/
structure Stamp where
  /-- Whole seconds since 1970, rounded down. -/
  seconds : Int64
  /-- Nanoseconds after the full second. -/
  nanos : Fin nanosPerSecond
  deriving DecidableEq, Inhabited

namespace Stamp

/-- Nanoseconds since 1970. -/
def sinceEpoch (s : Stamp) : Int := s.seconds.toInt * nanosPerSecond + s.nanos.val

/-- The moment this many nanoseconds after 1970. -/
def ofNanos (n : Int) : Stamp :=
  ⟨Int64.ofInt (n / nanosPerSecond), ⟨(n % nanosPerSecond).toNat, by
    simp only [nanosPerSecond]
    omega⟩⟩

/-- The moment `ms` milliseconds after the second `start`. -/
def ofClock (start : Int) (ms : Nat) : Stamp :=
  ofNanos (start * nanosPerSecond + ms * nanosPerMilli)

/-- Whether more than `ttl` milliseconds have passed since `seen`. -/
def olderThan (now seen : Stamp) (ttl : Nat) : Bool :=
  seen.sinceEpoch + (ttl * nanosPerMilli : Nat) < now.sinceEpoch

end Stamp

end SignedRecords
