import SignedRecords.Scheduler.Machine

/-!
# A scheduler whose tasks do not linger

Between two events from outside, the trigger task and the stops of a scheduler go on as far as they
can at once.
-/

namespace SignedRecords

namespace Scheduler

/-- What a trigger task or a stop can do at once. -/
def ready? (s : Scheduler) : Option SchedulerEvent :=
  match s.tasks.find? fun t => !t.sleeps || s.shutdown with
  | some t => some (if t.sleeps then .notices t.number else .begins t.number)
  | none =>
    match s.lock.holder, s.stops.find? fun waits => !s.tasks.any (·.number == waits.2) with
    | some (.stop stop), _ => some (.locks stop)
    | _, some (stop, _) => some (.goesOn stop)
    | _, none => none

/-- Lets the trigger task and the stops go on, for so many pieces at most. -/
def goOnAtOnce (now : Stamp) : Nat → Scheduler → Scheduler × List SchedulerAction
  | 0, s => (s, [])
  | pieces + 1, s =>
    match s.ready?.bind (s.step now) with
    | some (t, deeds) =>
      let (u, more) := goOnAtOnce now pieces t
      (u, deeds ++ more)
    | none => (s, [])

/-- An event from outside and what can be done at once after it. An event that cannot happen
    changes nothing. -/
def does (s : Scheduler) (now : Stamp) (event : SchedulerEvent) :
    Scheduler × List SchedulerAction :=
  match s.step now event with
  | some (t, deeds) =>
    -- a task begins and ends, a stop goes on and takes the lock
    let (u, more) := goOnAtOnce now (2 * (t.tasks.length + t.stopping.length)) t
    (u, deeds ++ more)
  | none => (s, [])

/-- The run in progress ends. -/
def endRun (s : Scheduler) (now : Stamp) (how : RunEnd) : Scheduler × List SchedulerAction :=
  match s.runs with
  | run :: _ => s.does now (.ends run how)
  | [] => (s, [])

/-- The trigger of the job fires. -/
def fires (s : Scheduler) (now : Stamp) : Scheduler × List SchedulerAction :=
  match s.tasks with
  | t :: _ => s.does now (.fires t.number false)
  | [] => (s, [])

/-- Milliseconds until the trigger of the job fires next, if it does. -/
def nextDelay? (s : Scheduler) (now : Stamp) : Option Nat :=
  s.tasks.head?.bind (·.trigger.delay? now)

end Scheduler

namespace SchedulerAction

/-- The stop that returns. -/
def returned? : SchedulerAction → Option Nat
  | .returns stop => some stop
  | _ => none

/-- Why something is not done. -/
def refusal? : SchedulerAction → Option SchedulerError
  | .refused e => some e
  | _ => none

/-- Whether a run starts. -/
def isStart : SchedulerAction → Bool
  | .starts _ => true
  | _ => false

end SchedulerAction

end SignedRecords
