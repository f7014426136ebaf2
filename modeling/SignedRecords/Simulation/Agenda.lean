/-!
# The agenda of a simulation

What is due at which millisecond. Of the events of one millisecond those of a lower rank come
first, and of one rank those that were entered first. Who is waited for goes on before all who
work in the background, because its own clock wakes it first; a deadline comes before an answer,
because an answer takes the way through those who asked for it; and a lookup begins only after
all that is due when it is started. An answer in the hands of whoever granted the time is still
in time, so an outer deadline comes after what it bounds.
-/

namespace SignedRecords.Simulation

/-- The order of events within a millisecond. -/
inductive Rank where
  /-- What the operation that is waited for waits for itself. -/
  | foreground
  /-- The time of a search or a put is up. -/
  | callDeadline
  /-- The time that the operation that is waited for has granted is up. -/
  | foregroundDeadline
  /-- A trigger fires. -/
  | trigger
  | arrival
  | queryDeadline
  /-- The time that work in the background has granted is up. -/
  | outerDeadline
  | beginning
  deriving DecidableEq, Repr

/-- The rank as a number. -/
def Rank.order : Rank → Nat
  | .foreground => 0
  | .callDeadline => 1
  | .foregroundDeadline => 2
  | .trigger => 3
  | .arrival => 4
  | .queryDeadline => 5
  | .outerDeadline => 6
  | .beginning => 7

/-- An event that is due. -/
structure Alarm (ε : Type) where
  due : Nat
  rank : Rank
  event : ε

/-- An event of another kind at the same time. -/
def Alarm.map {ε δ : Type} (f : ε → δ) (a : Alarm ε) : Alarm δ := ⟨a.due, a.rank, f a.event⟩

/-- Whether an alarm comes strictly before another one. -/
def Alarm.before {ε : Type} (a b : Alarm ε) : Bool :=
  a.due < b.due || (a.due == b.due && a.rank.order < b.rank.order)

/-- Alarms in the order in which they come. -/
abbrev Agenda (ε : Type) := List (Alarm ε)

namespace Agenda

variable {ε : Type}

/-- Enters an alarm. -/
def enter (alarm : Alarm ε) : Agenda ε → Agenda ε
  | [] => [alarm]
  | a :: rest => if alarm.before a then alarm :: a :: rest else a :: enter alarm rest

/-- Enters some alarms, one after the other. -/
def enterAll (agenda : Agenda ε) (alarms : List (Alarm ε)) : Agenda ε :=
  alarms.foldl (fun agenda a => enter a agenda) agenda

/-- The next alarm that is due by a time, and the rest. -/
def next? (limit : Option Nat) : Agenda ε → Option (Alarm ε × Agenda ε)
  | [] => none
  | a :: rest =>
    match limit with
    | none => some (a, rest)
    | some t => if a.due ≤ t then some (a, rest) else none

end Agenda

/-- Something that goes on in time: a clock in milliseconds, an agenda, and a way to handle what
    is due. -/
class Timed (σ : Type) (ε : outParam Type) where
  clock : σ → Nat
  setClock : Nat → σ → σ
  agenda : σ → Agenda ε
  setAgenda : Agenda ε → σ → σ
  handle : ε → σ → σ

variable {σ ε : Type} [Timed σ ε]

/-- Handles the next event that is due by a time; the clock moves to it. -/
def step? (limit : Option Nat) (s : σ) : Option σ :=
  match (Timed.agenda s).next? limit with
  | none => none
  | some (a, rest) =>
    some (Timed.handle a.event
      (Timed.setClock (max (Timed.clock s) a.due) (Timed.setAgenda rest s)))

/-- Handles events that are due by a time, at most `fuel` of them, until `stop` holds. -/
def runUntil (limit : Option Nat) (stop : σ → Bool) : Nat → σ → σ
  | 0, s => s
  | fuel + 1, s =>
    if stop s then s
    else
      match step? limit s with
      | none => s
      | some s => runUntil limit stop fuel s

/-- More events than a simulation of any use has. -/
def enough : Nat := 10000000

/-- Handles all events that are due now. -/
def settle (s : σ) : σ := runUntil (some (Timed.clock s)) (fun _ => false) enough s

/-- Lets time go on until something is done, and then handles all that is due. -/
def finish (done : σ → Bool) (s : σ) : σ := settle (runUntil none done enough s)

/-- Lets some milliseconds go by. -/
def elapse (ms : Nat) (s : σ) : σ :=
  let until' := Timed.clock s + ms
  Timed.setClock until' (runUntil (some until') (fun _ => false) enough s)

end SignedRecords.Simulation
