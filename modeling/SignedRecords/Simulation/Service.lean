import SignedRecords.Republish.Machine
import SignedRecords.Service.Machine
import SignedRecords.Simulation.Eager
import SignedRecords.Simulation.Transport

/-!
# The service with a clock

The record service in surroundings whose behaviour is given: the store may take its time and fail,
and the transport is a script or a client in a simulated network. Everything that is asked of the
service is a request with a number, whose result can be waited for; puts in the background and
scheduled runs go on beside it.

All logic is in the machines of the service, of the scheduler and of a republish; here only the
order in time of their events is fixed. What the request that is waited for waits for itself comes
first within its millisecond; the puts of a page work in the background.
-/

namespace SignedRecords.Simulation

/-- The calls of a store that can be disturbed. -/
inductive StoreMethod where
  | write
  | read
  | list
  | count
  | note
  | close
  deriving DecidableEq

/-- How a call of the store is disturbed: it waits first, and then it may fail. -/
structure Fault where
  delay : Nat
  failure : Option String

/-- What waits for a call of the transport. -/
inductive Errand where
  /-- A put in the background. -/
  | background (put : Nat)
  /-- The lookup of a request. -/
  | lookup (request : Nat)
  /-- An announcement of a page, by its number on it. -/
  | announcement (number : Nat)
  /-- Another attempt of a republish. -/
  | retry

/-- What is due in the service. -/
inductive ServiceAlarm where
  /-- A request has its turn at the store. -/
  | store (request : Nat) (turn : StoreTurn)
  /-- A republish has its turn at the store. -/
  | republish (wait : RepublishWait) (turn : StoreTurn)
  /-- The store is closed for a request. -/
  | close (request : Nat) (turn : StoreTurn)
  /-- Something happens in the transport. -/
  | transport (call : Nat) (event : TransportEvent)
  /-- The time for a call of the transport is up. -/
  | deadline (call : Nat)
  /-- The trigger of the scheduler fires. -/
  | fires

/-- How a request ends. -/
inductive ServiceResult where
  | reply (reply : Reply)
  | report (report : RepublishReport)
  | closed
  | refused (error : ServiceError)
  /-- The republish that the request waits for broke down. -/
  | brokeDown

/-- The service with a clock. -/
structure ServiceWorld where
  /-- The second since 1970 at which the simulation starts. -/
  start : Int
  clock : Nat
  agenda : Agenda ServiceAlarm
  machine : ServiceMachine
  scheduler : Scheduler
  /-- The republish in progress, and the request that waits for it. -/
  run : Option (Republish × Option Nat)
  transport : Transport
  /-- The calls of the transport that have not ended. -/
  errands : List (Nat × Errand)
  faults : List (StoreMethod × Fault)
  /-- The request that is waited for. -/
  foreground : Option Nat
  /-- The number of the next request or call. -/
  next : Nat
  /-- The requests that have ended. -/
  results : List (Nat × ServiceResult)

namespace ServiceWorld

/-- A service at the second `start`, before any request. -/
def ofService (start : Int) (service : Service) (transport : Transport)
    (faults : List (StoreMethod × Fault)) : ServiceWorld :=
  { start, clock := 0, agenda := [], machine := .ofService service, scheduler := .fresh,
    run := none, transport, errands := [], faults, foreground := none, next := 0, results := [] }

/-- The calendar clock. -/
def stamp (w : ServiceWorld) : Stamp := .ofClock w.start w.clock

/-- The settings. -/
def config (w : ServiceWorld) : ServiceConfig := w.machine.service.config

/-- Changes the service. -/
def modify (w : ServiceWorld) (change : Service → Service) : ServiceWorld :=
  { w with machine := { w.machine with service := change w.machine.service } }

/-- Sets an alarm. -/
def alarm (w : ServiceWorld) (delay : Nat) (rank : Rank) (event : ServiceAlarm) : ServiceWorld :=
  { w with agenda := w.agenda.enter ⟨w.clock + delay, rank, event⟩ }

/-- Whether a request is the one that is waited for. -/
def isForeground (w : ServiceWorld) (request : Option Nat) : Bool :=
  request.isSome && request == w.foreground

/-- The rank of what a request waits for, or what is done without a request. -/
def rankFor (w : ServiceWorld) (request : Option Nat) : Rank :=
  if w.isForeground request then .foreground else .arrival

/-- The rank of a deadline that a request has granted, or what is done without a request. -/
def deadlineRankFor (w : ServiceWorld) (request : Option Nat) : Rank :=
  if w.isForeground request then .foregroundDeadline else .outerDeadline

/-- Ends a request. -/
def answer (w : ServiceWorld) (request : Nat) (result : ServiceResult) : ServiceWorld :=
  { w with results := (request, result) :: w.results }

/-- The result of a request that has ended. -/
def result? (w : ServiceWorld) (request : Nat) : Option ServiceResult :=
  (w.results.find? (·.1 == request)).map (·.2)

/-! ## 1. The store -/

/-- How a call of the store is disturbed; usually not at all. -/
def fault (w : ServiceWorld) (method : StoreMethod) : Fault :=
  ((w.faults.find? (·.1 == method)).map (·.2)).getD ⟨0, none⟩

/-- The turn of a call that has waited. -/
def Fault.turn (f : Fault) : StoreTurn :=
  match f.failure with
  | some reason => .fails reason
  | none => .proceeds

/-- Calls the store without a deadline. -/
def callStore (w : ServiceWorld) (request : Option Nat) (method : StoreMethod)
    (event : StoreTurn → ServiceAlarm) : ServiceWorld :=
  let f := w.fault method
  w.alarm f.delay (w.rankFor request) (event (Fault.turn f))

/-- Calls the store for a request with the deadline of the service. -/
def callStoreInTime (w : ServiceWorld) (request : Nat) (method : StoreMethod) : ServiceWorld :=
  if (w.fault method).delay ≤ w.config.storeTimeout then
    w.callStore (some request) method (.store request)
  else
    w.alarm w.config.storeTimeout (w.deadlineRankFor (some request)) (.store request .timesOut)

/-- Closes the store for a request. -/
def callClose (w : ServiceWorld) (request : Nat) : ServiceWorld :=
  w.callStore (some request) .close (.close request)

/-! ## 2. The transport -/

/-- The world after a step of the transport; a call that ended is heard of at once. -/
def absorb (w : ServiceWorld) (step : TransportStep) : ServiceWorld :=
  let alarms := step.alarms.map (·.map fun e => .transport e.1 e.2)
  let ended := step.ended.toList.map fun e =>
    ⟨w.clock, .foreground, .transport e.1 (.ends e.2)⟩
  { w with transport := step.transport, agenda := w.agenda.enterAll (alarms ++ ended) }

/-- The request that itself waits for the end of a call. -/
def waiting? (w : ServiceWorld) : Errand → Option Nat
  | .background _ | .announcement _ => none
  | .lookup request => some request
  | .retry => w.run.bind (·.2)

/-- Starts a call of the transport with a deadline. -/
def callTransport (w : ServiceWorld) (errand : Errand) (timeout : Nat)
    (call : Transport → Rank → Nat → Nat → Nat → TransportStep) : ServiceWorld :=
  let number := w.next
  let request := w.waiting? errand
  let w := { w with next := number + 1, errands := (number, errand) :: w.errands }
  (w.absorb (call w.transport (w.rankFor request) w.clock number timeout)).alarm timeout
    (w.deadlineRankFor request) (.deadline number)

/-- Starts a put. -/
def startPut (w : ServiceWorld) (errand : Errand) (timeout : Nat) (record : Record) :
    ServiceWorld :=
  w.callTransport errand timeout fun t rank now number timeout =>
    t.put rank now number timeout record

/-- Does what the service asks for. -/
def obey (w : ServiceWorld) : ServiceAction → ServiceWorld
  | .replies request reply => w.answer request (.reply reply)
  | .waits request (.write ..) => w.callStoreInTime request .write
  | .waits request (.read _) => w.callStoreInTime request .read
  | .waits request (.lookup id) =>
    w.callTransport (.lookup request) w.config.getTimeout
      fun t rank now number timeout => t.get rank now number timeout id
  | .puts number record => w.startPut (.background number) w.config.putTimeout record

/-- An event of the service. -/
def step (w : ServiceWorld) (event : ServiceEvent) : ServiceWorld :=
  let (machine, actions) := w.machine.step w.clock event
  actions.foldl obey { w with machine }

/-! ## 3. Republishing -/

/-- The scheduler after something has happened to it; the requests to close whose stops return
    go on. -/
def withScheduler (w : ServiceWorld) (next : Scheduler × List SchedulerAction) : ServiceWorld :=
  (next.2.filterMap (·.returned?)).foldl callClose { w with scheduler := next.1 }

/-- No republish is in progress any more; the requests to close that waited for this go on. -/
def leave (w : ServiceWorld) (how : RunEnd) : ServiceWorld :=
  { w with run := none }.withScheduler (w.scheduler.endRun w.stamp how)

/-- The republish in progress ends with a report. -/
def report (w : ServiceWorld) (report : RepublishReport) (request : Option Nat) : ServiceWorld :=
  let w := (w.modify fun s => { s with lastReport := some report }).leave .finishes
  match request with
  | some request => w.answer request (.report report)
  | none => w

/-- Does what a republish waits for. -/
def await (w : ServiceWorld) (r : Republish) (request : Option Nat) (wait : RepublishWait) :
    ServiceWorld :=
  let w := { w with run := some (r, request) }
  match wait with
  | .count => w.callStore request .count (.republish wait)
  | .list .. => w.callStore request .list (.republish wait)
  | .note _ => w.callStore request .note (.republish wait)
  | .puts records =>
    records.foldl
      (fun w (number, record) => w.startPut (.announcement number) r.config.putTimeout record) w
  | .retry record => w.startPut .retry r.config.putTimeout record
  | .nothing => w.report r.report request

/-- Begins a republish. -/
def beginRun (w : ServiceWorld) (request : Option Nat) : ServiceWorld :=
  let (r, wait) := Republish.begin w.config.republish
  w.await r request wait

/-- A republish has its turn at the store. -/
def storeForRun (w : ServiceWorld) (wait : RepublishWait) (turn : StoreTurn) : ServiceWorld :=
  match w.run with
  | none => w
  | some (r, request) =>
    match wait with
    | .count | .list .. | .note _ =>
      let m : RepublishMachine := ⟨w.machine.service.store, r, wait⟩
      let (m, _) := m.storeTurn turn
      (w.modify fun s => { s with store := m.store }).await m.run request m.wait
    | _ => w

/-- The republish in progress breaks down: there is no report. -/
def breakRun (w : ServiceWorld) (request : Option Nat) : ServiceWorld :=
  match request with
  | some request => (w.leave .breaksDown).answer request .brokeDown
  | none => w.leave .breaksDown

/-! ## 4. The ends of calls -/

/-- A put has ended. -/
def putEnded (w : ServiceWorld) (errand : Errand) (how : PutEnd) : ServiceWorld :=
  match errand, w.run with
  | .background number, _ => w.step (.put number how)
  | .announcement number, some (r, request) =>
    match r.announced number how with
    | (r, some wait) => w.await r request wait
    | (r, none) => { w with run := some (r, request) }
  | .retry, some (r, request) =>
    match how with
    | .lost => w.breakRun request
    | how =>
      let (r, wait) := r.retried (how == .acknowledged)
      w.await r request wait
  | _, _ => w

/-- A call of the transport has ended. -/
def ended (w : ServiceWorld) (errand : Errand) : TransportOutcome → ServiceWorld
  | .put how => w.putEnded errand how
  | .got result =>
    match errand with
    | .lookup request => w.step (.lookup request (.answers result))
    | _ => w

/-- The time for a call of the transport is up. -/
def expired (w : ServiceWorld) (errand : Errand) : ServiceWorld :=
  match errand with
  | .lookup request => w.step (.lookup request .timesOut)
  | _ => w.putEnded errand .failed

/-- Takes a call off the list of those that have not ended. -/
def takeErrand (w : ServiceWorld) (call : Nat) : Option (Errand × ServiceWorld) :=
  (w.errands.find? (·.1 == call)).map fun found =>
    (found.2, { w with
      errands := w.errands.filter (·.1 != call)
      transport := w.transport.cancel call })

/-! ## 5. The scheduler -/

/-- The trigger is due again, if its schedule goes on. -/
def awaitTrigger (w : ServiceWorld) : ServiceWorld :=
  match w.scheduler.nextDelay? w.stamp with
  | some delay => w.alarm delay .trigger .fires
  | none => w

/-- The trigger fires. -/
def fire (w : ServiceWorld) : ServiceWorld :=
  let (scheduler, deeds) := w.scheduler.fires w.stamp
  let w := { w with scheduler }
  awaitTrigger (if deeds.any (·.isStart) then w.beginRun none else w)

/-! ## 6. Time -/

/-- Something is due. -/
def handle (w : ServiceWorld) : ServiceAlarm → ServiceWorld
  | .store request turn => w.step (.store request turn)
  | .republish wait turn => w.storeForRun wait turn
  | .close request turn =>
    match turn.run (.ok ()) with
    | .ok () => w.answer request .closed
    | .error e => w.answer request (.refused (.store e))
  | .transport call (.ends outcome) =>
    match w.takeErrand call with
    | some (errand, w) => w.ended errand outcome
    | none => w
  | .transport call event => w.absorb (w.transport.handle w.clock call event)
  | .deadline call =>
    match w.takeErrand call with
    | some (errand, w) => w.expired errand
    | none => w
  | .fires => w.fire

instance : Timed ServiceWorld ServiceAlarm where
  clock w := w.clock
  setClock t w := { w with clock := t }
  agenda w := w.agenda
  setAgenda a w := { w with agenda := a }
  handle e w := w.handle e

/-! ## 7. Requests -/

/-- Makes a request and waits for its result. -/
def request (w : ServiceWorld) (begin' : ServiceWorld → Nat → ServiceWorld) :
    ServiceWorld × Option ServiceResult :=
  let number := w.next
  let w := begin' { w with next := number + 1, foreground := some number } number
  let w := finish (fun w => (w.result? number).isSome) w
  ({ w with foreground := none }, w.result? number)

/-- Publishes a record under an id. -/
def publish (w : ServiceWorld) (id : String) (record : Record) :
    ServiceWorld × Option ServiceResult :=
  w.request fun w number => w.step (.publish number id record)

/-- Looks for an id. -/
def get (w : ServiceWorld) (id : String) : ServiceWorld × Option ServiceResult :=
  w.request fun w number => w.step (.get number id)

/-- Begins a republish on demand. -/
def beginRepublish (w : ServiceWorld) (request : Nat) : ServiceWorld :=
  let (scheduler, deeds) := w.scheduler.does w.stamp .runOnce
  match deeds.findSome? (·.refusal?) with
  | some e => w.answer request (.refused (.scheduler e))
  | none => { w with scheduler }.beginRun (some request)

/-- Republishes the store on demand. -/
def republish (w : ServiceWorld) : ServiceWorld × Option ServiceResult :=
  w.request beginRepublish

/-- Begins a republish on demand that nobody waits for. -/
def spawnRepublish (w : ServiceWorld) : ServiceWorld :=
  settle ({ w with next := w.next + 1 }.beginRepublish w.next)

/-- Republishes the store whenever a trigger fires. -/
def schedule (w : ServiceWorld) (event : SchedulerEvent) : Except SchedulerError ServiceWorld :=
  let (scheduler, deeds) := w.scheduler.does w.stamp event
  match deeds.findSome? (·.refusal?) with
  | some e => .error e
  | none => .ok (awaitTrigger { w with scheduler })

/-- Closes the service. -/
def close (w : ServiceWorld) : ServiceWorld × Option ServiceResult :=
  w.request fun w number =>
    w.withScheduler (w.scheduler.does w.stamp (.stop number))

end ServiceWorld

end SignedRecords.Simulation
