/-!
# Deadlines

A deadline is a reading of the clock and a time to wait, added. The clock counts its seconds in a
signed word of 64 bits, and a time to wait counts them in a word of 64 bits without a sign. A sum
that its word does not hold cannot be told: whoever asks for one breaks down. All times are in
milliseconds.
-/

namespace SignedRecords

/-- The first second that the clock cannot show. -/
abbrev clockEnd : Nat := Nat.pow 2 63

/-- Whether a moment can be told. -/
def tellable (ms : Nat) : Bool := ms / 1000 < clockEnd

/-- The deadline that comes a time after a reading of the clock, if it can be told. -/
def deadline? (now wait : Nat) : Option Nat :=
  if tellable (now + wait) then some (now + wait) else none

/-- The first number of seconds that is no time to wait. -/
abbrev waitLimit : Nat := Nat.pow 2 64

/-- One time to wait after another, if it can be told how long they take together. -/
def waitBoth? (first second : Nat) : Option Nat :=
  if (first + second) / 1000 < waitLimit then some (first + second) else none

end SignedRecords
