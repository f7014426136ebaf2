import SignedRecords.Dht.Error
import SignedRecords.Dht.Message.Codec
import SignedRecords.Net.PendingRequest

/-!
# The exchange of datagrams

A node sends its messages in datagrams and matches replies to requests by their ids. Every request
gets the next id and leaves a waiter under it; a response takes the waiter of its id away and is
put into the channel of the request; everything else goes into a queue of messages from others.

Requests and the receiver run in pieces, and between two pieces anything may happen. A piece ends
where the program waits or lets go of what it shares: the counter of the ids, the waiters, the
channel of a request, the queue. The events are these pieces and what the surroundings do: the
socket takes a datagram or refuses it, time goes by, calls are given up, the queue is read.
`Exchange.step` answers the exchange after an event and what comes of it, or nothing when the
event cannot happen; the order of the events is free.
-/

namespace SignedRecords

/-- The most octets of a datagram. -/
abbrev maxDatagram : Nat := 65507

/-- The most messages that wait in the queue. -/
abbrev maxQueue : Nat := 1024

/-- The datagram of a message. -/
def datagramOf (m : Message) : Except DhtError Bytes :=
  match Codec.write m with
  | .error e => .error (.failed s!"encode: {e.message}")
  | .ok bytes =>
    if maxDatagram < bytes.length then
      .error (.failed s!"message of {bytes.length} bytes exceeds a datagram")
    else .ok bytes

/-- The message in a datagram. A longer one is cut off. -/
def messageIn (datagram : Bytes) : Except Codec.ReadError Message :=
  Codec.read (datagram.take maxDatagram)

/-- What a request will hear. -/
inductive Channel where
  | empty
  | holds (reply : Message)
  /-- Nothing will be put into it any more. -/
  | closed
  deriving DecidableEq

/-- How far a request has come. -/
inductive RequestStage where
  /-- It has its id and its datagram, and leaves its waiter next. -/
  | ready (datagram : Bytes)
  /-- The datagram is handed to the socket. -/
  | sending
  /-- It waits for the reply. -/
  | waiting
  deriving DecidableEq

/-- A request that has not ended. -/
structure RequestCall where
  /-- How many requests began before it. -/
  number : Nat
  /-- The id of the request. -/
  id : UInt64
  target : Address
  /-- Milliseconds that it waits for the reply. -/
  wait : Nat
  stage : RequestStage
  channel : Channel

/-- Who waits for the reply with an id. -/
structure Waiter where
  id : UInt64
  /-- The number of the call. -/
  call : Nat
  context : PendingRequest

/-- What the receiver is about. -/
inductive Receiver where
  /-- It waits for a datagram. -/
  | listens
  /-- It has taken the waiter of a response away and passes the response on next. -/
  | answers (call : Nat) (reply : Message)
  /-- It waits for room in the queue. -/
  | holds (source : Address) (message : Message)
  /-- Nothing is received any more. -/
  | ended

/-- The requests of a node, and who waits for their replies. -/
structure RequestBook where
  /-- How many requests have begun. -/
  requests : Nat
  nextId : UInt64
  waiters : List Waiter
  /-- The requests that have not ended. -/
  calls : List RequestCall

/-- The exchange of a node. -/
structure Exchange where
  book : RequestBook
  /-- The messages from others, and where they came from. -/
  queue : List (Address × Message)
  /-- Whether the queue is read. -/
  queueOpen : Bool
  receiver : Receiver
  stopped : Bool

/-- What can happen. -/
inductive ExchangeEvent where
  /-- A request begins: it gets its id and its datagram. -/
  | request (target : Address) (message : Message) (wait : Nat)
  /-- A request leaves its waiter and hands its datagram to the socket. -/
  | registers (call : Nat)
  /-- The socket has taken the datagram of a request. -/
  | sent (call : Nat)
  /-- The socket has refused the datagram of a request. -/
  | unsent (call : Nat) (reason : String)
  /-- A request finds something in its channel. -/
  | wakes (call : Nat)
  /-- The time of a request is up. -/
  | timesUp (call : Nat)
  /-- A request is given up by who made it. -/
  | abandons (call : Nat)
  /-- The receiver takes a datagram from the socket. -/
  | datagram (source : Address) (bytes : Bytes)
  /-- The receiver passes a response on. -/
  | passesOn
  /-- The first message of the queue is taken out. -/
  | takes
  /-- The queue is not read any more. -/
  | closesQueue
  /-- Waiters whose time is up are swept out. -/
  | sweep
  /-- A stop is called. -/
  | stop
  /-- After a stop nobody waits any more. -/
  | clears
  /-- After a stop the receiver notices it. -/
  | receiverEnds

/-- What an event leads to. -/
inductive ExchangeAction where
  /-- A datagram is handed to the socket. -/
  | transmits (call : Nat) (target : Address) (bytes : Bytes)
  /-- A request ends. -/
  | ends (call : Nat) (result : Except DhtError Message)
  /-- A message is handed out from the queue. -/
  | hands (source : Address) (message : Message)

/-! ## 1. Requests -/

namespace RequestBook

/-- The request with a number. -/
def call? (b : RequestBook) (call : Nat) : Option RequestCall := b.calls.find? (·.number == call)

/-- The request with a number, if it has come as far as that. -/
def callAt? (b : RequestBook) (call : Nat) (stage : RequestStage) : Option RequestCall :=
  (b.call? call).filter (·.stage = stage)

/-- Changes the request with a number. -/
def alter (b : RequestBook) (call : Nat) (change : RequestCall → RequestCall) : RequestBook :=
  { b with calls := b.calls.map fun c => if c.number = call then change c else c }

/-- Takes a request away. -/
def dropCall (b : RequestBook) (call : Nat) : RequestBook :=
  { b with calls := b.calls.filter (·.number != call) }

/-- Takes the waiter of an id away. Its channel stays open in the hand of who takes it. -/
def dropWaiter (b : RequestBook) (id : UInt64) : RequestBook :=
  { b with waiters := b.waiters.filter (·.id != id) }

/-- Lets go of some waiters: nothing will be put into their channels any more. -/
def letGo (b : RequestBook) (gone : Waiter → Bool) : RequestBook :=
  let closed := fun c : RequestCall => b.waiters.any fun w => gone w && w.call == c.number
  { b with
    waiters := b.waiters.filter fun w => !gone w
    calls := b.calls.map fun c => if closed c then { c with channel := .closed } else c }

/-- Gives an id away. -/
def counted (b : RequestBook) : RequestBook :=
  { b with requests := b.requests + 1, nextId := b.nextId + 1 }

/-- A request begins: it gets its id and its datagram. It ends at once if it has none. -/
def request (b : RequestBook) (target : Address) (m : Message) (wait : Nat) :
    RequestBook × List ExchangeAction :=
  match datagramOf (m.withId b.nextId) with
  | .error e => (b.counted, [.ends b.requests (.error e)])
  | .ok bytes =>
    ({ b.counted with
        calls := ⟨b.requests, b.nextId, target, wait, .ready bytes, .empty⟩ :: b.calls }, [])

/-- A request leaves its waiter, in the place of one with the same id. -/
def register (b : RequestBook) (now : Stamp) (c : RequestCall) : RequestBook :=
  let b := (b.letGo (·.id == c.id)).alter c.number fun c => { c with stage := .sending }
  { b with waiters := ⟨c.id, c.number, ⟨c.target, c.wait, now⟩⟩ :: b.waiters }

/-- A registered request hands its datagram to the socket. -/
def send (b : RequestBook) (now : Stamp) (c : RequestCall) :
    Option (RequestBook × List ExchangeAction) :=
  match c.stage with
  | .ready datagram => some (b.register now c, [.transmits c.number c.target datagram])
  | .sending | .waiting => none

/-- Ends a request. -/
def close (b : RequestBook) (c : RequestCall) (result : Except DhtError Message) :
    RequestBook × List ExchangeAction :=
  (b.dropCall c.number, [.ends c.number result])

/-- The wording for a request whose datagram is refused. -/
def refused (c : RequestCall) (reason : String) : DhtError :=
  .failed s!"send to {c.target.text}: {reason}"

/-- The wording for a request without reply. -/
def noReply (c : RequestCall) : DhtError :=
  .timeout s!"no reply from {c.target.text} for request {c.id.toNat}"

/-- Ends a request with an error. Its waiter goes with it. -/
def giveUp (b : RequestBook) (c : RequestCall) (e : DhtError) :
    RequestBook × List ExchangeAction :=
  (b.letGo (·.id == c.id)).close c (.error e)

/-- Ends a request whose channel holds a reply or is closed. -/
def wake (b : RequestBook) (c : RequestCall) : Option (RequestBook × List ExchangeAction) :=
  match c.channel with
  | .empty => none
  | .holds reply => some (b.close c (.ok reply))
  | .closed => some (b.close c (.error (.failed "network stopped")))

/-- A request is given up by who made it. Its waiter stays. -/
def abandon (b : RequestBook) (c : RequestCall) : Option (RequestBook × List ExchangeAction) :=
  match c.stage with
  | .ready _ => none
  | .sending | .waiting => some (b.dropCall c.number, [])

end RequestBook

namespace Exchange

/-- The exchange of a node that has just been bound and started. -/
def fresh : Exchange :=
  { book := { requests := 0, nextId := 1, waiters := [], calls := [] }, queue := [],
    queueOpen := true, receiver := .listens, stopped := false }

/-- The exchange after its requests have changed. -/
def onBook (x : Exchange) (next : RequestBook × List ExchangeAction) :
    Exchange × List ExchangeAction :=
  ({ x with book := next.1 }, next.2)

/-! ## 2. Receiving -/

/-- A message that is no response goes into the queue, or waits for room in it; when the queue is
    not read any more the receiver ends. -/
def enqueue (x : Exchange) (source : Address) (m : Message) : Exchange :=
  if !x.queueOpen then { x with receiver := .ended }
  else if x.queue.length < maxQueue then { x with queue := x.queue ++ [(source, m)] }
  else { x with receiver := .holds source m }

/-- A response is for who waits for its id, wherever it comes from. -/
def answer (x : Exchange) (m : Message) : Exchange :=
  match x.book.waiters.find? (·.id == m.id) with
  | some w => { x with book := x.book.dropWaiter m.id, receiver := .answers w.call m }
  | none => x

/-- A datagram is received. -/
def receive (x : Exchange) (source : Address) (bytes : Bytes) : Exchange :=
  match messageIn bytes with
  | .error _ => x
  | .ok m => if m.isResponse then x.answer m else x.enqueue source m

/-- A response is put into the channel of a request, if that has not ended. -/
def passOn (x : Exchange) (call : Nat) (reply : Message) : Exchange :=
  let book := x.book.alter call fun c => { c with channel := .holds reply }
  { x with book, receiver := .listens }

/-- The queue goes on without its first message; one that waits for room comes in. -/
def advance (x : Exchange) (others : List (Address × Message)) : Exchange :=
  match x.receiver with
  | .holds source m => { x with queue := others ++ [(source, m)], receiver := .listens }
  | _ => { x with queue := others }

/-- The queue is not read any more. A receiver that waits for room in it ends. -/
def closeQueue (x : Exchange) : Exchange :=
  match x.receiver with
  | .holds .. => { x with queue := [], queueOpen := false, receiver := .ended }
  | _ => { x with queue := [], queueOpen := false }

/-! ## 3. Steps -/

/-- One event. -/
def step (x : Exchange) (now : Stamp) :
    ExchangeEvent → Option (Exchange × List ExchangeAction)
  | .request target m wait => some (x.onBook (x.book.request target m wait))
  | .registers call => ((x.book.call? call).bind (x.book.send now)).map x.onBook
  | .sent call => (x.book.callAt? call .sending).map fun _ =>
    x.onBook (x.book.alter call fun c => { c with stage := .waiting }, [])
  | .unsent call reason => (x.book.callAt? call .sending).map fun c =>
    x.onBook (x.book.giveUp c (RequestBook.refused c reason))
  | .wakes call => ((x.book.callAt? call .waiting).bind x.book.wake).map x.onBook
  | .timesUp call => (x.book.callAt? call .waiting).map fun c =>
    x.onBook ((x.book.wake c).getD (x.book.giveUp c (RequestBook.noReply c)))
  | .abandons call => ((x.book.call? call).bind x.book.abandon).map x.onBook
  | .datagram source bytes =>
    match x.receiver with
    | .listens => some (x.receive source bytes, [])
    | _ => none
  | .passesOn =>
    match x.receiver with
    | .answers call reply => some (x.passOn call reply, [])
    | _ => none
  | .takes =>
    match x.queue with
    | (source, m) :: others => some (x.advance others, [.hands source m])
    | [] => none
  | .closesQueue => some (x.closeQueue, [])
  | .sweep => some (x.onBook (x.book.letGo (·.context.isExpired now), []))
  | .stop => some ({ x with stopped := true }, [])
  | .clears => if x.stopped then some (x.onBook (x.book.letGo fun _ => true, [])) else none
  | .receiverEnds =>
    match x.receiver with
    | .listens => if x.stopped then some ({ x with receiver := .ended }, []) else none
    | _ => none

/-- The exchange after some events, the latest first, and what they led to, in order. -/
def after : List (Stamp × ExchangeEvent) → Option (Exchange × List ExchangeAction)
  | [] => some (fresh, [])
  | (now, e) :: past => do
    let (x, deeds) ← after past
    let (y, more) ← x.step now e
    return (y, deeds ++ more)

end Exchange

end SignedRecords
