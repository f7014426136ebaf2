import SignedRecords.Cron.Expression
import SignedRecords.Time.Stamp

/-!
# Triggers

When a job is started, what a scheduler shows of itself, and why it may refuse.
-/

namespace SignedRecords

/-- Why a scheduler did not do what was asked. -/
inductive SchedulerError where
  | alreadyScheduled
  | invalidCron (expression : String)
  | busy
  | stopped
  deriving DecidableEq, Repr

/-- The wording of a scheduler error. -/
def SchedulerError.message : SchedulerError → String
  | .alreadyScheduled => "a job is already scheduled"
  | .invalidCron e => Cron.invalidMessage e
  | .busy => "a run is already in progress"
  | .stopped => "scheduler is stopped"

/-- What a scheduler shows of itself. -/
inductive SchedulerState where
  | idle
  | running
  | stopped
  deriving DecidableEq, Repr

/-- When a job is started. -/
inductive Trigger where
  | cron (schedule : Cron.Schedule)
  /-- Every so many milliseconds. -/
  | every (period : Nat)
  deriving DecidableEq

/-- The trigger of a cron expression. -/
def Trigger.ofCron (expression : String) : Except SchedulerError Trigger :=
  match Cron.parse? expression with
  | some schedule => .ok (.cron schedule)
  | none => .error (.invalidCron expression)

/-- Nanoseconds until a trigger fires next; nothing when its schedule has ended. -/
def Trigger.wait? (t : Trigger) (now : Stamp) : Option Nat :=
  match t with
  | .every period => some (period * nanosPerMilli)
  | .cron schedule =>
    (schedule.next? now.seconds.toInt).map fun next =>
      (next * nanosPerSecond - now.sinceEpoch).toNat

/-- The same in whole milliseconds. -/
def Trigger.delay? (t : Trigger) (now : Stamp) : Option Nat :=
  (t.wait? now).map (· / nanosPerMilli)

end SignedRecords
