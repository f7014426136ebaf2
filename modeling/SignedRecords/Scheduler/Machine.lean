import SignedRecords.Scheduler.Basic

/-!
# Schedulers

A scheduler has one job at most, which a trigger starts again and again, and it also runs other
work on demand. Runs do not overlap: a trigger that fires while a run is in progress is dropped,
and work on demand is refused. A run may end in any way. After the first stop nothing starts any
more, and a stop returns when no run is in progress.

Four things are shared for this: the mark that the scheduler shows of itself, a lock that a run
holds while it is in progress, the signal of a stop, and a slot for the trigger of the job. The
trigger, the runs and the stops are tasks that go from one wait to the next, and between two waits
of one task any other may go. The events are these pieces; `Scheduler.step` answers the scheduler
after an event and what comes of it, or nothing when the event cannot happen.
-/

namespace SignedRecords

/-- Who has the lock. -/
inductive LockHolder where
  | run (number : Nat)
  | stop (number : Nat)
  deriving DecidableEq

/-- The lock of a scheduler. -/
structure RunLock where
  holder : Option LockHolder
  /-- The stops that wait for the lock; it goes from one to the next in this order. -/
  waiting : List Nat
  deriving DecidableEq

/-- The lock after its holder has let go of it. -/
def RunLock.release (l : RunLock) : RunLock :=
  match l.waiting with
  | [] => ⟨none, []⟩
  | stop :: others => ⟨some (.stop stop), others⟩

/-- A task that starts the job whenever its trigger fires. -/
structure TriggerTask where
  number : Nat
  trigger : Trigger
  /-- Whether it waits for the trigger to fire; before, it has to find out when that is. -/
  sleeps : Bool

/-- A scheduler. -/
structure Scheduler where
  /-- What the scheduler shows of itself. -/
  mark : SchedulerState
  lock : RunLock
  /-- Whether a stop has given its signal. -/
  shutdown : Bool
  /-- The trigger task of the job, until a stop takes it out. -/
  slot : Option Nat
  /-- The trigger tasks that have not ended. -/
  tasks : List TriggerTask
  /-- The runs in progress. -/
  runs : List Nat
  /-- The stops that wait for the end of a trigger task, each with that task. -/
  stops : List (Nat × Nat)
  /-- How many trigger tasks were installed. -/
  installed : Nat
  /-- How many runs have started. -/
  started : Nat

/-- How a run ends. -/
inductive RunEnd where
  | finishes
  | breaksDown
  | cancelled
  deriving DecidableEq

/-- What can happen. -/
inductive SchedulerEvent where
  /-- A job is given a cron expression. -/
  | schedule (expression : String)
  /-- A job is given a period in milliseconds. -/
  | interval (period : Nat)
  /-- Work on demand begins. -/
  | runOnce
  /-- A trigger task finds out when its trigger fires first. -/
  | begins (task : Nat)
  /-- A trigger fires, and the job may break down as it is called. -/
  | fires (task : Nat) (breaks : Bool)
  /-- A trigger task notices the signal of a stop. -/
  | notices (task : Nat)
  /-- A run ends. -/
  | ends (run : Nat) (how : RunEnd)
  /-- A stop begins, under a number that is not in use. -/
  | stop (number : Nat)
  /-- A stop hears that the trigger task has ended. -/
  | goesOn (stop : Nat)
  /-- A stop that has waited for the lock finds that it has it. -/
  | locks (stop : Nat)
  /-- A stop is given up by who made it. -/
  | abandons (stop : Nat)

/-- What an event leads to. -/
inductive SchedulerAction where
  | installs (task : Nat)
  /-- What was asked for is not done. -/
  | refused (error : SchedulerError)
  | starts (run : Nat)
  | ended (run : Nat) (how : RunEnd)
  /-- A stop returns. -/
  | returns (stop : Nat)
  deriving DecidableEq

namespace Scheduler

/-- A scheduler that has not been used. -/
def fresh : Scheduler :=
  { mark := .idle, lock := ⟨none, []⟩, shutdown := false, slot := none, tasks := [], runs := [],
    stops := [], installed := 0, started := 0 }

/-- What a scheduler shows of itself. -/
def state (s : Scheduler) : SchedulerState := s.mark

/-! ## 1. Runs -/

/-- A run takes the free lock. -/
def enter (s : Scheduler) : Scheduler :=
  { s with
    mark := if s.mark = .idle then .running else s.mark
    lock := { s.lock with holder := some (.run s.started) }
    runs := s.runs ++ [s.started]
    started := s.started + 1 }

/-- A run ends, in whatever way, and lets go of the lock. -/
def leave (s : Scheduler) (run : Nat) : Scheduler :=
  { s with
    mark := if s.mark = .running then .idle else s.mark
    lock := s.lock.release
    runs := s.runs.filter (· != run) }

/-- Work on demand begins. -/
def runOnce (s : Scheduler) : Scheduler × List SchedulerAction :=
  if s.mark = .stopped then (s, [.refused .stopped])
  else if s.lock.holder.isSome then (s, [.refused .busy])
  else (s.enter, [.starts s.started])

/-! ## 2. The trigger -/

/-- Installs a job. -/
def install (s : Scheduler) (trigger : Trigger) : Scheduler × List SchedulerAction :=
  if s.mark = .stopped then (s, [.refused .stopped])
  else if s.slot.isSome then (s, [.refused .alreadyScheduled])
  else
    ({ s with
        slot := some s.installed
        tasks := s.tasks ++ [⟨s.installed, trigger, false⟩]
        installed := s.installed + 1 },
      [.installs s.installed])

/-- Installs a job on a cron expression. -/
def schedule (s : Scheduler) (expression : String) : Scheduler × List SchedulerAction :=
  match Trigger.ofCron expression with
  | .error e => (s, [.refused e])
  | .ok trigger => s.install trigger

/-- The trigger task with a number, if it waits or not as told. -/
def task? (s : Scheduler) (task : Nat) (sleeps : Bool) : Option TriggerTask :=
  s.tasks.find? fun t => t.number == task && t.sleeps == sleeps

/-- Ends a trigger task. -/
def dropTask (s : Scheduler) (task : Nat) : Scheduler :=
  { s with tasks := s.tasks.filter (·.number != task) }

/-- A trigger task waits until its trigger fires next; it ends if that is never. -/
def sleep (s : Scheduler) (now : Stamp) (t : TriggerTask) : Scheduler :=
  match t.trigger.wait? now with
  | some _ =>
    { s with tasks := s.tasks.map fun u =>
        if u.number = t.number then { u with sleeps := true } else u }
  | none => s.dropTask t.number

/-- A trigger fires. After a stop its task ends. A run in progress lets nothing else start, and a
    job that breaks down as it is called takes the task of the trigger with it. -/
def fire (s : Scheduler) (now : Stamp) (t : TriggerTask) (breaks : Bool) :
    Scheduler × List SchedulerAction :=
  if s.shutdown then (s.dropTask t.number, [])
  else if s.lock.holder.isSome then (s.sleep now t, [])
  else if breaks then
    ((s.enter.leave s.started).dropTask t.number,
      [.starts s.started, .ended s.started .breaksDown])
  else (s.enter.sleep now t, [.starts s.started])

/-! ## 3. Stops -/

/-- A stop takes the lock and lets go of it at once, or waits for it. -/
def seekLock (s : Scheduler) (stop : Nat) : Scheduler × List SchedulerAction :=
  if s.lock.holder.isSome then
    ({ s with lock := { s.lock with waiting := s.lock.waiting ++ [stop] } }, [])
  else (s, [.returns stop])

/-- The numbers of the stops that have not returned. -/
def stopping (s : Scheduler) : List Nat :=
  s.stops.map (·.1) ++ s.lock.waiting ++
    match s.lock.holder with
    | some (.stop stop) => [stop]
    | _ => []

/-- The signal of a stop: the mark changes for good, and the slot is emptied. -/
def signal (s : Scheduler) : Scheduler :=
  { s with mark := .stopped, shutdown := true, slot := none }

/-- A stop begins. It gives its signal, and waits for the trigger task if there is one. -/
def stop (s : Scheduler) (number : Nat) : Scheduler × List SchedulerAction :=
  match s.slot with
  | some task => ({ s.signal with stops := s.stops ++ [(number, task)] }, [])
  | none => s.signal.seekLock number

/-- A stop goes on when the trigger task that it waits for has ended. -/
def goOn (s : Scheduler) (stop : Nat) : Option (Scheduler × List SchedulerAction) :=
  match s.stops.find? (·.1 == stop) with
  | some (_, task) =>
    if s.tasks.any (·.number == task) then none
    else some ({ s with stops := s.stops.filter (·.1 != stop) }.seekLock stop)
  | none => none

/-- A stop that has the lock lets go of it and returns. -/
def pass (s : Scheduler) (stop : Nat) : Option (Scheduler × List SchedulerAction) :=
  if s.lock.holder = some (.stop stop) then
    some ({ s with lock := s.lock.release }, [.returns stop])
  else none

/-- A stop is given up, wherever it waits. -/
def abandon (s : Scheduler) (stop : Nat) : Scheduler :=
  let lock := { s.lock with waiting := s.lock.waiting.filter (· != stop) }
  { s with
    stops := s.stops.filter (·.1 != stop)
    lock := if lock.holder = some (.stop stop) then lock.release else lock }

/-! ## 4. Steps -/

/-- One event. -/
def step (s : Scheduler) (now : Stamp) :
    SchedulerEvent → Option (Scheduler × List SchedulerAction)
  | .schedule expression => some (s.schedule expression)
  | .interval period => some (s.install (.every period))
  | .runOnce => some s.runOnce
  | .begins task => (s.task? task false).map fun t => (s.sleep now t, [])
  | .fires task breaks => (s.task? task true).map fun t => s.fire now t breaks
  | .notices task =>
    if s.shutdown then (s.task? task true).map fun t => (s.dropTask t.number, []) else none
  | .ends run how => if run ∈ s.runs then some (s.leave run, [.ended run how]) else none
  | .stop number => if number ∈ s.stopping then none else some (s.stop number)
  | .goesOn stop => s.goOn stop
  | .locks stop => s.pass stop
  | .abandons stop => some (s.abandon stop, [])

/-- The scheduler after some events, the latest first, and what they led to, in order. -/
def after : List (Stamp × SchedulerEvent) → Option (Scheduler × List SchedulerAction)
  | [] => some (fresh, [])
  | (now, event) :: past => do
    let (s, deeds) ← after past
    let (t, more) ← s.step now event
    return (t, deeds ++ more)

end Scheduler

end SignedRecords
