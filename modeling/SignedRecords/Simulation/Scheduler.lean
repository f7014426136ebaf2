import SignedRecords.Simulation.Agenda
import SignedRecords.Simulation.Eager

/-!
# A scheduler with a clock

A scheduler whose job and whose work on demand take time and may break down. Everything that is
started or stopped from outside is a task with a name, whose result can be waited for. The runs
write into a log.
-/

namespace SignedRecords.Simulation

/-- Work of a simulation. -/
structure Job where
  name : String
  /-- Milliseconds that a run takes. -/
  duration : Nat
  /-- The numbers of the runs that break down at their end. -/
  breakdowns : List Nat

/-- A run in progress. -/
structure JobRun where
  job : Job
  /-- The number of the run among those of its job. -/
  number : Nat
  /-- The task that waits for the run. -/
  task : Option Nat
  /-- The rank of the run's end. -/
  rank : Rank

/-- What happens to a run. -/
inductive RunMark where
  | starts
  | ends
  | breaksDown
  deriving DecidableEq

/-- A line of the log. -/
structure LogLine where
  time : Nat
  name : String
  number : Nat
  mark : RunMark

/-- The wording of a line. -/
def LogLine.text (l : LogLine) : String :=
  let what := match l.mark with
    | .starts => "start"
    | .ends => "end"
    | .breaksDown => "panic"
  s!"{l.name}#{l.number} {what}"

/-- Whether a line comes before another one in a report: by time and wording. -/
def LogLine.le (a b : LogLine) : Bool :=
  a.time < b.time || (a.time == b.time && !(b.text < a.text))

/-- How a task ends. -/
inductive TaskResult where
  | done
  | refused (error : SchedulerError)
  | brokeDown
  | cancelled
  /-- A stop returned at this millisecond. -/
  | stoppedAt (ms : Nat)
  deriving DecidableEq

/-- A task, with its result once it has ended. -/
structure NamedTask where
  name : String
  result : Option TaskResult

/-- What is due in a scheduler. -/
inductive SchedulerAlarm where
  /-- The trigger of the job fires. -/
  | fires
  /-- A run ends. -/
  | runEnds (run : Nat)

/-- A scheduler with a clock. -/
structure SchedulerWorld where
  /-- The second since 1970 at which the simulation starts. -/
  start : Int
  clock : Nat
  agenda : Agenda SchedulerAlarm
  scheduler : Scheduler
  /-- The job, and how often it has run. -/
  job : Option (Job × Nat)
  /-- The run in progress, under its number among all runs. -/
  current : Option (Nat × JobRun)
  /-- The number of the next run. -/
  nextRun : Nat
  /-- The tasks in the order in which they were started. -/
  tasks : List NamedTask
  /-- What the runs wrote, the last line first. -/
  log : List LogLine

namespace SchedulerWorld

/-- A scheduler that has not been used, at the second `start`. -/
def fresh (start : Int) : SchedulerWorld :=
  { start, clock := 0, agenda := [], scheduler := .fresh, job := none, current := none,
    nextRun := 0, tasks := [], log := [] }

/-- The calendar clock. -/
def stamp (w : SchedulerWorld) : Stamp := .ofClock w.start w.clock

/-- Writes a line about a run. -/
def note (w : SchedulerWorld) (run : JobRun) (mark : RunMark) : SchedulerWorld :=
  { w with log := ⟨w.clock, run.job.name, run.number, mark⟩ :: w.log }

/-- What was written after the first `n` lines, in the order of a report. -/
def logSince (w : SchedulerWorld) (n : Nat) : List LogLine :=
  (w.log.take (w.log.length - n)).mergeSort LogLine.le

/-- When runs started. -/
def starts (w : SchedulerWorld) : List Nat :=
  (w.log.reverse.filter (·.mark == .starts)).map (·.time)

/-! ## 1. Tasks -/

/-- Enters a task; answers its number. -/
def newTask (w : SchedulerWorld) (name : String) : SchedulerWorld × Nat :=
  ({ w with tasks := w.tasks ++ [⟨name, none⟩] }, w.tasks.length)

/-- Ends a task. -/
def endTask (w : SchedulerWorld) (result : TaskResult) (task : Nat) : SchedulerWorld :=
  { w with tasks := w.tasks.modify task fun t => { t with result := some result } }

/-- The result of a task that has ended. -/
def result? (w : SchedulerWorld) (task : Nat) : Option TaskResult :=
  (w.tasks[task]?).bind (·.result)

/-- The number of the last task with a name. -/
def task? (w : SchedulerWorld) (name : String) : Option Nat :=
  (w.tasks.zipIdx.reverse.find? (·.1.name == name)).map (·.2)

/-! ## 2. Runs -/

/-- The scheduler after something has happened to it; the stops that come to an end return. -/
def absorb (w : SchedulerWorld) (next : Scheduler × List SchedulerAction) : SchedulerWorld :=
  (next.2.filterMap (·.returned?)).foldl (endTask · (.stoppedAt w.clock))
    { w with scheduler := next.1 }

/-- No run is in progress any more; the stops that waited for this return. -/
def leave (w : SchedulerWorld) (how : RunEnd) : SchedulerWorld :=
  { w with current := none }.absorb (w.scheduler.endRun w.stamp how)

/-- A run ends by itself. -/
def endRun (w : SchedulerWorld) (run : JobRun) : SchedulerWorld :=
  let broken := run.job.breakdowns.contains run.number
  let w := (w.note run (if broken then .breaksDown else .ends)).leave
    (if broken then .breaksDown else .finishes)
  match run.task with
  | some task => w.endTask (if broken then .brokeDown else .done) task
  | none => w

/-- A run begins; work that takes no time ends at once. -/
def beginRun (w : SchedulerWorld) (run : JobRun) : SchedulerWorld :=
  let w := w.note run .starts
  if run.job.duration = 0 then w.endRun run
  else
    { w with
      current := some (w.nextRun, run)
      nextRun := w.nextRun + 1
      agenda := w.agenda.enter
        ⟨w.clock + run.job.duration, run.rank, .runEnds w.nextRun⟩ }

/-- The trigger is due again, if its schedule goes on. -/
def awaitTrigger (w : SchedulerWorld) : SchedulerWorld :=
  match w.scheduler.nextDelay? w.stamp with
  | some delay =>
    { w with agenda := w.agenda.enter ⟨w.clock + delay, .trigger, .fires⟩ }
  | none => w

/-- The trigger fires. -/
def fire (w : SchedulerWorld) : SchedulerWorld :=
  let (scheduler, deeds) := w.scheduler.fires w.stamp
  let w := { w with scheduler }
  match deeds.any (·.isStart), w.job with
  | true, some (job, runs) =>
    awaitTrigger ({ w with job := some (job, runs + 1) }.beginRun
      ⟨job, runs + 1, none, .arrival⟩)
  | _, _ => awaitTrigger w

instance : Timed SchedulerWorld SchedulerAlarm where
  clock w := w.clock
  setClock t w := { w with clock := t }
  agenda w := w.agenda
  setAgenda a w := { w with agenda := a }
  handle e w :=
    match e, w.current with
    | .fires, _ => w.fire
    | .runEnds number, some (current, run) => if number = current then w.endRun run else w
    | .runEnds _, none => w

/-! ## 3. From outside -/

/-- Gives a job its expression or its period. -/
def schedule (w : SchedulerWorld) (event : SchedulerEvent) (job : Job) :
    Except SchedulerError SchedulerWorld :=
  let (scheduler, deeds) := w.scheduler.does w.stamp event
  match deeds.findSome? (·.refusal?) with
  | some e => .error e
  | none => .ok (awaitTrigger { w with scheduler, job := some (job, 0) })

/-- Starts work on demand, whose end has a rank; answers the number of the task. -/
def startWork (w : SchedulerWorld) (rank : Rank) (job : Job) : SchedulerWorld × Nat :=
  let (w, task) := w.newTask job.name
  let (scheduler, deeds) := w.scheduler.does w.stamp .runOnce
  match deeds.findSome? (·.refusal?) with
  | some e => (w.endTask (.refused e) task, task)
  | none => ({ w with scheduler }.beginRun ⟨job, 1, some task, rank⟩, task)

/-- Starts work on demand in the background. -/
def spawnRun (w : SchedulerWorld) (job : Job) : SchedulerWorld := (w.startWork .arrival job).1

/-- Starts a stop; answers the number of the task. -/
def spawnStop (w : SchedulerWorld) (name : String) : SchedulerWorld × Nat :=
  let (w, task) := w.newTask name
  (w.absorb (w.scheduler.does w.stamp (.stop task)), task)

/-- Cancels a task that has not ended. -/
def cancel (w : SchedulerWorld) (task : Nat) : SchedulerWorld :=
  if (w.result? task).isSome then w
  else
    let w := (w.absorb (w.scheduler.does w.stamp (.abandons task))).endTask .cancelled task
    match w.current with
    | some (_, run) => if run.task = some task then w.leave .cancelled else w
    | none => w

/-- Waits for the end of a task; answers its result. -/
def join (w : SchedulerWorld) (task : Nat) : SchedulerWorld × Option TaskResult :=
  let w := finish (fun w => (w.result? task).isSome) w
  (w, w.result? task)

/-- Does work on demand and waits for its end; answers its result. -/
def runOnce (w : SchedulerWorld) (job : Job) : SchedulerWorld × Option TaskResult :=
  let (w, task) := w.startWork .foreground job
  w.join task

/-- Runs a job without duration until it has run `count` times or its schedule has ended, and
    stops; answers when it ran. -/
def firstRuns (w : SchedulerWorld) (event : SchedulerEvent) (count : Nat) :
    Except SchedulerError (SchedulerWorld × List Nat) :=
  (w.schedule event ⟨"job", 0, []⟩).map fun w =>
    let w := runUntil none (fun w => count ≤ w.starts.length) enough w
    ((w.spawnStop "stop").1, w.starts)

end SchedulerWorld

end SignedRecords.Simulation
