import Mathlib.Algebra.Group.Nat.Defs
import Mathlib.Data.List.Nodup
import SignedRecords.Dht.Exchange

/-!
# Who waits for replies

Every step of an exchange is one of a few moves. Whatever moves are made, a waiter stands for a
request that has registered and has heard nothing yet, under the id of that request; a request
that has ended has no waiter, and it ends once.
-/

namespace SignedRecords

/-- The response in the datagram of an event. -/
def responseIn : ExchangeEvent → Option Message
  | .datagram _ bytes => (messageIn bytes).toOption.filter (·.isResponse)
  | _ => none

/-- Whom a request that begins asks, and what. -/
def request? : ExchangeEvent → Option (Address × Message)
  | .request target m _ => some (target, m)
  | _ => none

/-- The message in the datagram of an event, if it is no response, and where it came from. -/
def other? : ExchangeEvent → Option (Address × Message)
  | .datagram source bytes =>
    ((messageIn bytes).toOption.filter (!·.isResponse)).map fun m => (source, m)
  | _ => none

/-- Whether an event neither begins a request nor brings a datagram. -/
def IsPlain : ExchangeEvent → Prop
  | .request .. | .datagram .. => False
  | _ => True

theorem IsPlain.request? {event : ExchangeEvent} (h : IsPlain event) : request? event = none := by
  cases event with
  | request => exact h.elim
  | _ => rfl

theorem IsPlain.responseIn {event : ExchangeEvent} (h : IsPlain event) :
    responseIn event = none := by
  cases event with
  | datagram => exact h.elim
  | _ => rfl

theorem IsPlain.other? {event : ExchangeEvent} (h : IsPlain event) : other? event = none := by
  cases event with
  | datagram => exact h.elim
  | _ => rfl

/-! ## Moves -/

namespace RequestBook

/-- The moves of a request. -/
inductive Moves (b : RequestBook) (now : Stamp) :
    ExchangeEvent → RequestBook → List ExchangeAction → Prop
  | refuses {target m wait e} (h : datagramOf (m.withId b.nextId) = .error e) :
      Moves b now (.request target m wait) b.counted [.ends b.requests (.error e)]
  | begins {target m wait bytes} (h : datagramOf (m.withId b.nextId) = .ok bytes) :
      Moves b now (.request target m wait)
        { b.counted with
          calls := ⟨b.requests, b.nextId, target, wait, .ready bytes, .empty⟩ :: b.calls } []
  | registers {c datagram} (hc : c ∈ b.calls) (h : c.stage = .ready datagram) :
      Moves b now (.registers c.number) (b.register now c)
        [.transmits c.number c.target datagram]
  | sent {c} (hc : c ∈ b.calls) (h : c.stage = .sending) :
      Moves b now (.sent c.number) (b.alter c.number fun c => { c with stage := .waiting }) []
  | fails {event c e} (hevent : IsPlain event) (hc : c ∈ b.calls) :
      Moves b now event (b.giveUp c e).1 [.ends c.number (.error e)]
  | hears {event c reply} (hevent : IsPlain event) (hc : c ∈ b.calls)
      (hstage : c.stage = .waiting) (h : c.channel = .holds reply) :
      Moves b now event (b.dropCall c.number) [.ends c.number (.ok reply)]
  | hearsEnd {event c e} (hevent : IsPlain event) (hc : c ∈ b.calls) (h : c.channel = .closed) :
      Moves b now event (b.dropCall c.number) [.ends c.number (.error e)]
  | abandons {call} : Moves b now (.abandons call) (b.dropCall call) []
  | letsGo {event gone} (hevent : IsPlain event) : Moves b now event (b.letGo gone) []

variable {b : RequestBook} {now : Stamp}

theorem call?_eq_some {call : Nat} {c : RequestCall} (h : b.call? call = some c) :
    c ∈ b.calls ∧ c.number = call :=
  ⟨List.mem_of_find?_eq_some h, by simpa using List.find?_some h⟩

theorem callAt?_eq_some {call : Nat} {stage : RequestStage} {c : RequestCall}
    (h : b.callAt? call stage = some c) : c ∈ b.calls ∧ c.number = call ∧ c.stage = stage := by
  obtain ⟨hcall, hstage⟩ := Option.filter_eq_some_iff.1 h
  obtain ⟨hmem, hnumber⟩ := call?_eq_some hcall
  exact ⟨hmem, hnumber, by simpa using hstage⟩

theorem moves_request (target : Address) (m : Message) (wait : Nat) :
    Moves b now (.request target m wait) (b.request target m wait).1
      (b.request target m wait).2 := by
  unfold request
  split
  · rename_i e he
    exact .refuses he
  · rename_i bytes hbytes
    exact .begins hbytes

theorem moves_of_send {c : RequestCall} {next : RequestBook × List ExchangeAction}
    (hc : c ∈ b.calls) (h : b.send now c = some next) :
    Moves b now (.registers c.number) next.1 next.2 := by
  unfold send at h
  split at h
  · rename_i datagram hstage
    cases h
    exact .registers hc hstage
  all_goals cases h

theorem moves_of_wake {event : ExchangeEvent} {c : RequestCall}
    {next : RequestBook × List ExchangeAction} (hevent : IsPlain event) (hc : c ∈ b.calls)
    (hstage : c.stage = .waiting) (h : b.wake c = some next) :
    Moves b now event next.1 next.2 := by
  unfold wake at h
  split at h
  · cases h
  · rename_i reply hholds
    cases h
    exact .hears hevent hc hstage hholds
  · rename_i hclosed
    cases h
    exact .hearsEnd hevent hc hclosed

theorem moves_of_abandon {c : RequestCall} {next : RequestBook × List ExchangeAction}
    (h : b.abandon c = some next) : Moves b now (.abandons c.number) next.1 next.2 := by
  unfold abandon at h
  split at h
  · cases h
  all_goals
    cases h
    exact .abandons

end RequestBook

namespace Exchange

/-- The moves of an exchange: what can come of an event, and what it leads to. -/
inductive Moves (x : Exchange) (now : Stamp) :
    ExchangeEvent → Exchange → List ExchangeAction → Prop
  | requests {event book more} (h : x.book.Moves now event book more) :
      Moves x now event { x with book } more
  | ignores {source bytes} (hlistens : x.receiver = .listens)
      (h : ∀ m, messageIn bytes = .ok m → m.isResponse ∧ ∀ w ∈ x.book.waiters, w.id ≠ m.id) :
      Moves x now (.datagram source bytes) x []
  | answers {source bytes m w} (hlistens : x.receiver = .listens) (hm : messageIn bytes = .ok m)
      (hresponse : m.isResponse) (hw : w ∈ x.book.waiters) (hid : w.id = m.id) :
      Moves x now (.datagram source bytes)
        { x with book := x.book.dropWaiter m.id, receiver := .answers w.call m } []
  | enqueues {source bytes m} (hlistens : x.receiver = .listens) (hm : messageIn bytes = .ok m)
      (hresponse : m.isResponse = false) :
      Moves x now (.datagram source bytes) (x.enqueue source m) []
  | passesOn {call reply} (h : x.receiver = .answers call reply) :
      Moves x now .passesOn (x.passOn call reply) []
  | takes {source m others} (h : x.queue = (source, m) :: others) :
      Moves x now .takes (x.advance others) [.hands source m]
  | closesQueue : Moves x now .closesQueue x.closeQueue []
  | stop : Moves x now .stop { x with stopped := true } []
  | receiverEnds (hlistens : x.receiver = .listens) :
      Moves x now .receiverEnds { x with receiver := .ended } []

variable {x : Exchange} {now : Stamp}

theorem moves_receive {source : Address} {bytes : Bytes} (hlistens : x.receiver = .listens) :
    Moves x now (.datagram source bytes) (x.receive source bytes) [] := by
  unfold receive
  split
  · rename_i hm
    refine .ignores hlistens fun m h => ?_
    cases hm.symm.trans h
  · rename_i m hm
    split
    · rename_i hresponse
      unfold answer
      split
      · rename_i w hw
        exact .answers hlistens hm hresponse (List.mem_of_find?_eq_some hw)
          (by simpa using List.find?_some hw)
      · rename_i hnone
        refine .ignores hlistens fun m' h => ?_
        obtain rfl : m = m' := Except.ok.inj (hm.symm.trans h)
        exact ⟨hresponse, by simpa using List.find?_eq_none.1 hnone⟩
    · rename_i hresponse
      exact .enqueues hlistens hm (by simpa using hresponse)

/-- Every step is a move. -/
theorem moves_of_step {y : Exchange} {event : ExchangeEvent} {more : List ExchangeAction}
    (h : x.step now event = some (y, more)) : Moves x now event y more := by
  cases event with
  | request target m wait =>
    cases h
    exact .requests (RequestBook.moves_request target m wait)
  | registers call =>
    obtain ⟨next, hnext, hy⟩ := Option.map_eq_some_iff.1 h
    obtain ⟨c, hc, hsend⟩ := Option.bind_eq_some_iff.1 hnext
    obtain ⟨hmem, rfl⟩ := RequestBook.call?_eq_some hc
    cases hy
    exact .requests (RequestBook.moves_of_send hmem hsend)
  | sent call =>
    obtain ⟨c, hc, h⟩ := Option.map_eq_some_iff.1 h
    obtain ⟨hmem, rfl, hstage⟩ := RequestBook.callAt?_eq_some hc
    cases h
    exact .requests (.sent hmem hstage)
  | unsent call reason =>
    obtain ⟨c, hc, h⟩ := Option.map_eq_some_iff.1 h
    cases h
    exact .requests (.fails trivial (RequestBook.callAt?_eq_some hc).1)
  | wakes call =>
    obtain ⟨next, hnext, h⟩ := Option.map_eq_some_iff.1 h
    obtain ⟨c, hc, hwake⟩ := Option.bind_eq_some_iff.1 hnext
    obtain ⟨hmem, -, hstage⟩ := RequestBook.callAt?_eq_some hc
    cases h
    exact .requests (RequestBook.moves_of_wake trivial hmem hstage hwake)
  | timesUp call =>
    obtain ⟨c, hc, h⟩ := Option.map_eq_some_iff.1 h
    obtain ⟨hmem, -, hstage⟩ := RequestBook.callAt?_eq_some hc
    cases h
    cases hwake : x.book.wake c with
    | none => exact .requests (.fails trivial hmem)
    | some next => exact .requests (RequestBook.moves_of_wake trivial hmem hstage hwake)
  | abandons call =>
    obtain ⟨next, hnext, hy⟩ := Option.map_eq_some_iff.1 h
    obtain ⟨c, hc, habandon⟩ := Option.bind_eq_some_iff.1 hnext
    obtain ⟨-, rfl⟩ := RequestBook.call?_eq_some hc
    cases hy
    exact .requests (RequestBook.moves_of_abandon habandon)
  | datagram source bytes =>
    simp only [step] at h
    split at h
    · rename_i hlistens
      cases h
      exact moves_receive hlistens
    · cases h
  | passesOn =>
    simp only [step] at h
    split at h
    · rename_i hanswers
      cases h
      exact .passesOn hanswers
    · cases h
  | takes =>
    simp only [step] at h
    split at h
    · rename_i hqueue
      cases h
      exact .takes hqueue
    · cases h
  | closesQueue =>
    cases h
    exact .closesQueue
  | sweep =>
    cases h
    exact .requests (.letsGo trivial)
  | stop =>
    cases h
    exact .stop
  | clears =>
    simp only [step] at h
    split at h
    · cases h
      exact .requests (.letsGo trivial)
    · cases h
  | receiverEnds =>
    simp only [step] at h
    split at h
    · rename_i hlistens
      split at h
      · cases h
        exact .receiverEnds hlistens
      · cases h
    · cases h

end Exchange

/-! ## Ids -/

namespace RequestBook

/-- The id of the request that began after `call` others. -/
def idOf (call : Nat) : UInt64 := UInt64.ofNat (call + 1)

theorem idOf_succ (call : Nat) : idOf (call + 1) = idOf call + 1 := by
  rw [idOf, UInt64.ofNat_add]
  rfl

/-- Fewer than 2^64 requests have different ids. -/
theorem idOf_inj {k n : Nat} (hk : k < 2 ^ 64) (hn : n < 2 ^ 64) (h : idOf k = idOf n) : k = n := by
  have hnat := congrArg UInt64.toNat h
  simp only [idOf, UInt64.toNat_ofNat'] at hnat
  omega

/-! ## Requests in order -/

/-- A request that has not ended. -/
structure CallTidy (requests : Nat) (ended : List Nat) (c : RequestCall) : Prop where
  number_lt : c.number < requests
  id_eq : c.id = idOf c.number
  not_ended : c.number ∉ ended
  empty_of_ready : ∀ datagram, c.stage = .ready datagram → c.channel = .empty

/-- Nothing has come yet for a request that has registered. -/
def Waits (calls : List RequestCall) (call : Nat) : Prop :=
  ∀ c ∈ calls, c.number = call → c.channel = .empty ∧ ∀ datagram, c.stage ≠ .ready datagram

/-- Who waits for a request; the request itself may be abandoned. -/
structure WaiterTidy (requests : Nat) (ended : List Nat) (calls : List RequestCall) (w : Waiter) :
    Prop where
  call_lt : w.call < requests
  id_eq : w.id = idOf w.call
  not_ended : w.call ∉ ended
  waits : Waits calls w.call

/-- Requests in order, when some have ended. -/
structure Tidy (b : RequestBook) (ended : List Nat) : Prop where
  nextId_eq : b.nextId = idOf b.requests
  numbers : (b.calls.map (·.number)).Nodup
  ids : (b.waiters.map (·.id)).Nodup
  calls : ∀ c ∈ b.calls, CallTidy b.requests ended c
  waiters : ∀ w ∈ b.waiters, WaiterTidy b.requests ended b.calls w
  ended_lt : ∀ call ∈ ended, call < b.requests
  nodup_ended : ended.Nodup

variable {b : RequestBook} {ended : List Nat}

/-- A waiter of a request is the one under its id. -/
theorem Tidy.eq_of_call (h : b.Tidy ended) {v w : Waiter} (hv : v ∈ b.waiters)
    (hw : w ∈ b.waiters) (hcall : v.call = w.call) : v = w := by
  refine List.inj_on_of_nodup_map h.ids hv hw ?_
  rw [(h.waiters v hv).id_eq, (h.waiters w hw).id_eq, hcall]

theorem Tidy.eq_of_number (h : b.Tidy ended) {c d : RequestCall} (hc : c ∈ b.calls)
    (hd : d ∈ b.calls) (hnumber : c.number = d.number) : c = d :=
  List.inj_on_of_nodup_map h.numbers hc hd hnumber

theorem Tidy.counted (h : b.Tidy ended) : b.counted.Tidy ended where
  nextId_eq := by rw [RequestBook.counted, h.nextId_eq, idOf_succ]
  numbers := h.numbers
  ids := h.ids
  calls c hc :=
    let ht := h.calls c hc
    ⟨Nat.lt_succ_of_lt ht.number_lt, ht.id_eq, ht.not_ended, ht.empty_of_ready⟩
  waiters w hw :=
    let ht := h.waiters w hw
    ⟨Nat.lt_succ_of_lt ht.call_lt, ht.id_eq, ht.not_ended, ht.waits⟩
  ended_lt call hcall := Nat.lt_succ_of_lt (h.ended_lt call hcall)
  nodup_ended := h.nodup_ended

theorem Tidy.dropCall (h : b.Tidy ended) (call : Nat) : (b.dropCall call).Tidy ended where
  nextId_eq := h.nextId_eq
  numbers := h.numbers.sublist (List.filter_sublist.map _)
  ids := h.ids
  calls c hc := h.calls c (List.mem_of_mem_filter hc)
  waiters w hw :=
    let ht := h.waiters w hw
    ⟨ht.call_lt, ht.id_eq, ht.not_ended, fun c hc => ht.waits c (List.mem_of_mem_filter hc)⟩
  ended_lt := h.ended_lt
  nodup_ended := h.nodup_ended

theorem Tidy.dropWaiter (h : b.Tidy ended) (id : UInt64) : (b.dropWaiter id).Tidy ended where
  nextId_eq := h.nextId_eq
  numbers := h.numbers
  ids := h.ids.sublist (List.filter_sublist.map _)
  calls := h.calls
  waiters w hw := h.waiters w (List.mem_of_mem_filter hw)
  ended_lt := h.ended_lt
  nodup_ended := h.nodup_ended

/-- A request ends that nobody waits for any more. -/
theorem Tidy.end (h : b.Tidy ended) {call : Nat} (hlt : call < b.requests) (hnew : call ∉ ended)
    (hcalls : ∀ c ∈ b.calls, c.number ≠ call) (hwaiters : ∀ w ∈ b.waiters, w.call ≠ call) :
    b.Tidy (ended ++ [call]) where
  nextId_eq := h.nextId_eq
  numbers := h.numbers
  ids := h.ids
  calls c hc :=
    let ht := h.calls c hc
    ⟨ht.number_lt, ht.id_eq, by simp [ht.not_ended, hcalls c hc], ht.empty_of_ready⟩
  waiters w hw :=
    let ht := h.waiters w hw
    ⟨ht.call_lt, ht.id_eq, by simp [ht.not_ended, hwaiters w hw], ht.waits⟩
  ended_lt n hn := by
    rcases List.mem_append.1 hn with hn | hn
    · exact h.ended_lt n hn
    · obtain rfl := List.mem_singleton.1 hn
      exact hlt
  nodup_ended := by
    refine List.nodup_append'.2 ⟨h.nodup_ended, List.nodup_singleton call, ?_⟩
    simpa using hnew

/-- A request is kept or its channel is closed, the latter only if one of its waiters goes. -/
theorem mem_calls_letGo {gone : Waiter → Bool} {d : RequestCall} (hd : d ∈ (b.letGo gone).calls) :
    ∃ c ∈ b.calls, d = c ∨ d = { c with channel := .closed } ∧
      ∃ w ∈ b.waiters, gone w ∧ w.call = c.number := by
  obtain ⟨c, hc, rfl⟩ := List.mem_map.1 hd
  refine ⟨c, hc, ?_⟩
  split
  · rename_i hclosed
    simp only [List.any_eq_true, Bool.and_eq_true, beq_iff_eq] at hclosed
    exact .inr ⟨rfl, hclosed⟩
  · exact .inl rfl

theorem mem_waiters_letGo {gone : Waiter → Bool} {w : Waiter} :
    w ∈ (b.letGo gone).waiters ↔ w ∈ b.waiters ∧ gone w = false := by
  simp [letGo]

theorem Tidy.letGo (h : b.Tidy ended) (gone : Waiter → Bool) : (b.letGo gone).Tidy ended where
  nextId_eq := h.nextId_eq
  numbers := by
    have hsame : (b.letGo gone).calls.map (·.number) = b.calls.map (·.number) := by
      rw [RequestBook.letGo, List.map_map]
      refine List.map_congr_left fun c _ => ?_
      dsimp only [Function.comp]
      split <;> rfl
    rw [hsame]
    exact h.numbers
  ids := h.ids.sublist (List.filter_sublist.map _)
  calls d hd := by
    obtain ⟨c, hc, rfl | ⟨rfl, w, hw, -, hcall⟩⟩ := mem_calls_letGo hd
    · exact h.calls d hc
    · have ht := h.calls c hc
      -- a request that waits has registered, so the closed channel is that of no ready one
      have hready := ((h.waiters w hw).waits c hc hcall.symm).2
      exact ⟨ht.number_lt, ht.id_eq, ht.not_ended, fun d hd => absurd hd (hready d)⟩
  waiters v hv := by
    obtain ⟨hv, hstays⟩ := mem_waiters_letGo.1 hv
    have ht := h.waiters v hv
    refine ⟨ht.call_lt, ht.id_eq, ht.not_ended, fun d hd hnumber => ?_⟩
    obtain ⟨c, hc, rfl | ⟨rfl, w, hw, hgone, hcall⟩⟩ := mem_calls_letGo hd
    · exact ht.waits d hc hnumber
    · obtain rfl := h.eq_of_call hv hw (hnumber.symm.trans hcall.symm)
      rw [hgone] at hstays
      cases hstays
  ended_lt := h.ended_lt
  nodup_ended := h.nodup_ended

theorem mem_calls_alter {call : Nat} {change : RequestCall → RequestCall} {d : RequestCall}
    (hd : d ∈ (b.alter call change).calls) :
    ∃ c ∈ b.calls, c.number = call ∧ d = change c ∨ c.number ≠ call ∧ d = c := by
  obtain ⟨c, hc, rfl⟩ := List.mem_map.1 hd
  refine ⟨c, hc, ?_⟩
  split
  · rename_i hnumber
    exact .inl ⟨hnumber, rfl⟩
  · rename_i hnumber
    exact .inr ⟨hnumber, rfl⟩

theorem Tidy.numbers_alter (h : b.Tidy ended) {call : Nat} {change : RequestCall → RequestCall}
    (hnumber : ∀ c, (change c).number = c.number) :
    ((b.alter call change).calls.map (·.number)).Nodup := by
  have hsame : (b.alter call change).calls.map (·.number) = b.calls.map (·.number) := by
    rw [alter, List.map_map]
    refine List.map_congr_left fun c _ => ?_
    dsimp only [Function.comp]
    split
    · exact hnumber c
    · rfl
  rw [hsame]
  exact h.numbers

/-- A request comes further, but not back to where it began. -/
theorem Tidy.setStage (h : b.Tidy ended) (call : Nat) {stage : RequestStage}
    (hstage : ∀ datagram, stage ≠ .ready datagram) :
    (b.alter call fun c => { c with stage }).Tidy ended where
  nextId_eq := h.nextId_eq
  numbers := h.numbers_alter fun _ => rfl
  ids := h.ids
  calls d hd := by
    obtain ⟨c, hc, ⟨-, rfl⟩ | ⟨-, rfl⟩⟩ := mem_calls_alter hd
    · have ht := h.calls c hc
      exact ⟨ht.number_lt, ht.id_eq, ht.not_ended, fun d hd => absurd hd (hstage d)⟩
    · exact h.calls d hc
  waiters w hw := by
    have ht := h.waiters w hw
    refine ⟨ht.call_lt, ht.id_eq, ht.not_ended, fun d hd hnumber => ?_⟩
    obtain ⟨c, hc, ⟨-, rfl⟩ | ⟨-, rfl⟩⟩ := mem_calls_alter hd
    · exact ⟨(ht.waits c hc hnumber).1, hstage⟩
    · exact ht.waits d hc hnumber
  ended_lt := h.ended_lt
  nodup_ended := h.nodup_ended

/-- Nobody waits any more for a request that has registered. -/
structure Passable (b : RequestBook) (call : Nat) : Prop where
  call_lt : call < b.requests
  no_waiter : ∀ w ∈ b.waiters, w.call ≠ call
  registered : ∀ c ∈ b.calls, c.number = call → ∀ datagram, c.stage ≠ .ready datagram

theorem Tidy.setChannel (h : b.Tidy ended) {call : Nat} (hcall : b.Passable call)
    (channel : Channel) : (b.alter call fun c => { c with channel }).Tidy ended where
  nextId_eq := h.nextId_eq
  numbers := h.numbers_alter fun _ => rfl
  ids := h.ids
  calls d hd := by
    obtain ⟨c, hc, ⟨hnumber, rfl⟩ | ⟨-, rfl⟩⟩ := mem_calls_alter hd
    · have ht := h.calls c hc
      exact ⟨ht.number_lt, ht.id_eq, ht.not_ended, fun d hd =>
        absurd hd (hcall.registered c hc hnumber d)⟩
    · exact h.calls d hc
  waiters w hw := by
    have ht := h.waiters w hw
    refine ⟨ht.call_lt, ht.id_eq, ht.not_ended, fun d hd hnumber => ?_⟩
    obtain ⟨c, hc, ⟨hsame, rfl⟩ | ⟨-, rfl⟩⟩ := mem_calls_alter hd
    · exact absurd (hnumber.symm.trans hsame) (hcall.no_waiter w hw)
    · exact ht.waits d hc hnumber
  ended_lt := h.ended_lt
  nodup_ended := h.nodup_ended

theorem Tidy.addCall (h : b.Tidy ended) {c : RequestCall} (hc : CallTidy b.requests ended c)
    (hnew : ∀ d ∈ b.calls, d.number ≠ c.number) (hwaiters : ∀ w ∈ b.waiters, w.call ≠ c.number) :
    Tidy { b with calls := c :: b.calls } ended where
  nextId_eq := h.nextId_eq
  numbers := by
    refine List.nodup_cons.2 ⟨fun hmem => ?_, h.numbers⟩
    obtain ⟨d, hd, hnumber⟩ := List.mem_map.1 hmem
    exact hnew d hd hnumber
  ids := h.ids
  calls := List.forall_mem_cons.2 ⟨hc, h.calls⟩
  waiters w hw := by
    have ht := h.waiters w hw
    have hother : c.number ≠ w.call := Ne.symm (hwaiters w hw)
    exact ⟨ht.call_lt, ht.id_eq, ht.not_ended,
      List.forall_mem_cons.2 ⟨fun hnumber => absurd hnumber hother, ht.waits⟩⟩
  ended_lt := h.ended_lt
  nodup_ended := h.nodup_ended

theorem Tidy.addWaiter (h : b.Tidy ended) {w : Waiter}
    (hw : WaiterTidy b.requests ended b.calls w) (hnew : ∀ v ∈ b.waiters, v.id ≠ w.id) :
    Tidy { b with waiters := w :: b.waiters } ended where
  nextId_eq := h.nextId_eq
  numbers := h.numbers
  ids := by
    refine List.nodup_cons.2 ⟨fun hmem => ?_, h.ids⟩
    obtain ⟨v, hv, hid⟩ := List.mem_map.1 hmem
    exact hnew v hv hid
  calls := h.calls
  waiters := List.forall_mem_cons.2 ⟨hw, h.waiters⟩
  ended_lt := h.ended_lt
  nodup_ended := h.nodup_ended

/-- A ready request registers. -/
theorem Tidy.register (h : b.Tidy ended) (now : Stamp) {c : RequestCall} (hc : c ∈ b.calls)
    {datagram : Bytes} (hready : c.stage = .ready datagram) :
    (b.register now c).Tidy ended := by
  have ht := h.calls c hc
  have hsending : ∀ datagram, RequestStage.sending ≠ .ready datagram := fun _ h => by cases h
  refine ((h.letGo (·.id == c.id)).setStage c.number hsending).addWaiter
    ⟨ht.number_lt, ht.id_eq, ht.not_ended, fun d hd hnumber => ?_⟩ fun v hv => ?_
  · obtain ⟨e, he, ⟨-, rfl⟩ | ⟨hother, rfl⟩⟩ := mem_calls_alter hd
    · refine ⟨?_, hsending⟩
      obtain ⟨c', hc', rfl | ⟨rfl, w, hw, -, hcall⟩⟩ := mem_calls_letGo he
      · obtain rfl := h.eq_of_number hc' hc hnumber
        exact ht.empty_of_ready datagram hready
      · obtain rfl := h.eq_of_number hc' hc hnumber
        exact absurd hready (((h.waiters w hw).waits c' hc hcall.symm).2 datagram)
    · exact absurd hnumber hother
  · simpa using (mem_waiters_letGo.1 hv).2

/-- A request ends, and its waiter, if it still has one, is gone. -/
theorem Tidy.close (h : b.Tidy ended) {c : RequestCall} (hlt : c.number < b.requests)
    (hnew : c.number ∉ ended) (hwaiters : ∀ w ∈ b.waiters, w.call ≠ c.number) :
    (b.dropCall c.number).Tidy (ended ++ [c.number]) := by
  refine (h.dropCall c.number).end hlt hnew (fun d hd => ?_) hwaiters
  simpa using (List.mem_filter.1 hd).2

/-! ## What becomes of a request -/

/-- What a request `d` was before a move that leads to `more`. -/
structure Stems (d c : RequestCall) (more : List ExchangeAction) : Prop where
  number_eq : d.number = c.number
  id_eq : d.id = c.id
  target_eq : d.target = c.target
  channel : d.channel = c.channel ∨ d.channel = .closed
  stage : d.stage = c.stage ∨ c.stage = .sending ∧ d.stage = .waiting ∨
    d.stage = .sending ∧ ∃ datagram, c.stage = .ready datagram ∧
      .transmits c.number c.target datagram ∈ more

theorem Stems.refl (c : RequestCall) (more : List ExchangeAction) : Stems c c more :=
  ⟨rfl, rfl, rfl, .inl rfl, .inl rfl⟩

theorem stems_of_mem_letGo {gone : Waiter → Bool} {d : RequestCall}
    (hd : d ∈ (b.letGo gone).calls) (more : List ExchangeAction) :
    ∃ c ∈ b.calls, Stems d c more := by
  obtain ⟨c, hc, rfl | ⟨rfl, -⟩⟩ := mem_calls_letGo hd
  · exact ⟨d, hc, .refl d more⟩
  · exact ⟨c, hc, rfl, rfl, rfl, .inr rfl, .inl rfl⟩

/-- A request after a move was one before it, or it has just begun. -/
theorem Moves.stems {now : Stamp} {event : ExchangeEvent} {b' : RequestBook}
    {more : List ExchangeAction} (hmove : b.Moves now event b' more) (h : b.Tidy ended)
    {d : RequestCall} (hd : d ∈ b'.calls) : (∃ c ∈ b.calls, Stems d c more) ∨
      ∃ target m wait bytes, event = .request target m wait ∧
        datagramOf (m.withId b.nextId) = .ok bytes ∧
        d = ⟨b.requests, b.nextId, target, wait, .ready bytes, .empty⟩ := by
  cases hmove with
  | refuses => exact .inl ⟨d, hd, .refl d _⟩
  | begins hbytes =>
    rcases List.mem_cons.1 hd with rfl | hd
    · exact .inr ⟨_, _, _, _, rfl, hbytes, rfl⟩
    · exact .inl ⟨d, hd, .refl d _⟩
  | registers hc hready =>
    obtain ⟨e, he, ⟨hnumber, rfl⟩ | ⟨-, rfl⟩⟩ := mem_calls_alter hd
    · obtain ⟨c', hc', hstems⟩ := stems_of_mem_letGo he []
      obtain rfl := h.eq_of_number hc' hc (hstems.number_eq.symm.trans hnumber)
      exact .inl ⟨c', hc', hstems.number_eq, hstems.id_eq, hstems.target_eq, hstems.channel,
        .inr (.inr ⟨rfl, _, hready, List.mem_singleton_self _⟩)⟩
    · exact .inl (stems_of_mem_letGo he _)
  | sent hc hsending =>
    obtain ⟨e, he, ⟨hnumber, rfl⟩ | ⟨-, rfl⟩⟩ := mem_calls_alter hd
    · obtain rfl := h.eq_of_number he hc hnumber
      exact .inl ⟨e, he, rfl, rfl, rfl, .inl rfl, .inr (.inl ⟨hsending, rfl⟩)⟩
    · exact .inl ⟨_, he, .refl _ _⟩
  | fails => exact .inl (stems_of_mem_letGo (List.mem_of_mem_filter hd) _)
  | letsGo => exact .inl (stems_of_mem_letGo hd _)
  | hears | hearsEnd | abandons => exact .inl ⟨d, List.mem_of_mem_filter hd, .refl d _⟩

/-- Who waits after a move waited before it, or waits for a request that has just registered. -/
theorem Moves.waiters {now : Stamp} {event : ExchangeEvent} {b' : RequestBook}
    {more : List ExchangeAction} (hmove : b.Moves now event b' more) {w : Waiter}
    (hw : w ∈ b'.waiters) : w ∈ b.waiters ∨
      event = .registers w.call ∧ ∃ c ∈ b.calls, c.number = w.call ∧
        ∃ datagram, c.stage = .ready datagram := by
  cases hmove with
  | registers hc hready =>
    rcases List.mem_cons.1 hw with rfl | hw
    · exact .inr ⟨rfl, _, hc, rfl, _, hready⟩
    · exact .inl (mem_waiters_letGo.1 hw).1
  | fails | letsGo => exact .inl (mem_waiters_letGo.1 hw).1
  | refuses | begins | sent | hears | hearsEnd | abandons => exact .inl hw

theorem Moves.requests_eq {now : Stamp} {event : ExchangeEvent} {b' : RequestBook}
    {more : List ExchangeAction} (hmove : b.Moves now event b' more) :
    b'.requests = b.requests + (request? event).toList.length := by
  cases hmove with
  | refuses | begins => rfl
  | fails hevent | hears hevent | hearsEnd hevent | letsGo hevent => rw [hevent.request?]; rfl
  | registers | sent | abandons => rfl

/-- A response can be passed on whatever move the requests make before. -/
theorem Passable.move {call : Nat} (hpass : b.Passable call) (h : b.Tidy ended) {now : Stamp}
    {event : ExchangeEvent} {b' : RequestBook} {more : List ExchangeAction}
    (hmove : b.Moves now event b' more) : b'.Passable call where
  call_lt := by
    have hlt := hpass.call_lt
    rw [hmove.requests_eq]
    omega
  no_waiter w hw hcall := by
    rcases hmove.waiters hw with hw | ⟨-, c, hc, hnumber, datagram, hready⟩
    · exact hpass.no_waiter w hw hcall
    · exact hpass.registered c hc (hnumber.trans hcall) datagram hready
  registered d hd hnumber datagram hready := by
    rcases hmove.stems h hd with ⟨c, hc, hstems⟩ | ⟨_, _, _, _, -, -, rfl⟩
    · have hregistered := hpass.registered c hc (hstems.number_eq.symm.trans hnumber)
      rcases hstems.stage with hstage | ⟨-, hstage⟩ | ⟨hstage, -⟩
      · exact hregistered datagram (hstage.symm.trans hready)
      · cases hstage.symm.trans hready
      · cases hstage.symm.trans hready
    · exact absurd hnumber (Nat.ne_of_gt hpass.call_lt)

/-! ## Order is kept -/

/-- The requests that end. -/
def endedIn (deeds : List ExchangeAction) : List Nat :=
  deeds.filterMap fun
    | .ends call _ => some call
    | _ => none

/-- Every move keeps the requests in order. -/
theorem Tidy.move (h : b.Tidy ended) {now : Stamp} {event : ExchangeEvent} {b' : RequestBook}
    {more : List ExchangeAction} (hmove : b.Moves now event b' more) :
    b'.Tidy (ended ++ endedIn more) := by
  cases hmove with
  | refuses =>
    refine h.counted.end (Nat.lt_succ_self _) (fun hmem => ?_) (fun c hc => ?_) fun w hw => ?_
    · exact Nat.lt_irrefl _ (h.ended_lt _ hmem)
    · exact Nat.ne_of_lt (h.calls c hc).number_lt
    · exact Nat.ne_of_lt (h.waiters w hw).call_lt
  | begins =>
    rw [endedIn, List.filterMap_nil, List.append_nil]
    refine h.counted.addCall ⟨Nat.lt_succ_self _, h.nextId_eq, fun hmem => ?_, fun _ _ => rfl⟩
      (fun c hc => ?_) fun w hw => ?_
    · exact Nat.lt_irrefl _ (h.ended_lt _ hmem)
    · exact Nat.ne_of_lt (h.calls c hc).number_lt
    · exact Nat.ne_of_lt (h.waiters w hw).call_lt
  | registers hc hready => exact (List.append_nil ended).symm ▸ h.register now hc hready
  | sent => exact (List.append_nil ended).symm ▸ h.setStage _ fun _ h => by cases h
  | fails _ hc =>
    have ht := h.calls _ hc
    refine (h.letGo _).close ht.number_lt ht.not_ended fun w hw hcall => ?_
    obtain ⟨hmem, hother⟩ := mem_waiters_letGo.1 hw
    rw [(h.waiters w hmem).id_eq, hcall, ht.id_eq] at hother
    simp at hother
  | hears _ hc _ hholds =>
    have ht := h.calls _ hc
    refine h.close ht.number_lt ht.not_ended fun w hw hcall => ?_
    cases hholds.symm.trans ((h.waiters w hw).waits _ hc hcall.symm).1
  | hearsEnd _ hc hclosed =>
    have ht := h.calls _ hc
    refine h.close ht.number_lt ht.not_ended fun w hw hcall => ?_
    cases hclosed.symm.trans ((h.waiters w hw).waits _ hc hcall.symm).1
  | abandons => exact (List.append_nil ended).symm ▸ h.dropCall _
  | letsGo => exact (List.append_nil ended).symm ▸ h.letGo _

end RequestBook

namespace Exchange

/-- An exchange in order, when some requests have ended. -/
structure Tidy (x : Exchange) (ended : List Nat) : Prop where
  book : x.book.Tidy ended
  passes : ∀ call reply, x.receiver = .answers call reply → x.book.Passable call

theorem tidy_fresh : fresh.Tidy [] where
  book :=
    { nextId_eq := rfl, numbers := List.nodup_nil, ids := List.nodup_nil,
      calls := by simp [fresh], waiters := by simp [fresh], ended_lt := by simp,
      nodup_ended := List.nodup_nil }
  passes call reply h := by cases h

variable {x : Exchange} {ended : List Nat}

theorem book_enqueue (source : Address) (m : Message) : (x.enqueue source m).book = x.book := by
  unfold enqueue
  split
  · rfl
  · split <;> rfl

theorem enqueue_not_answers (hlistens : x.receiver = .listens) (source : Address) (m : Message)
    (call : Nat) (reply : Message) : (x.enqueue source m).receiver ≠ .answers call reply := by
  unfold enqueue
  split
  · simp
  · split <;> simp [hlistens]

theorem book_advance (others : List (Address × Message)) : (x.advance others).book = x.book := by
  unfold advance
  split <;> rfl

theorem answers_of_advance {others : List (Address × Message)} {call : Nat} {reply : Message}
    (h : (x.advance others).receiver = .answers call reply) : x.receiver = .answers call reply := by
  unfold advance at h
  split at h
  · cases h
  · exact h

theorem book_closeQueue : x.closeQueue.book = x.book := by
  unfold closeQueue
  split <;> rfl

theorem answers_of_closeQueue {call : Nat} {reply : Message}
    (h : x.closeQueue.receiver = .answers call reply) : x.receiver = .answers call reply := by
  unfold closeQueue at h
  split at h
  · cases h
  · exact h

/-- Order is kept by every step. -/
theorem Tidy.step (h : x.Tidy ended) {y : Exchange} {now : Stamp} {event : ExchangeEvent}
    {more : List ExchangeAction} (hstep : x.step now event = some (y, more)) :
    y.Tidy (ended ++ RequestBook.endedIn more) := by
  have hnone : ended ++ RequestBook.endedIn [] = ended := List.append_nil ended
  cases moves_of_step hstep with
  | requests hmove =>
    exact ⟨h.book.move hmove, fun call reply hr => (h.passes call reply hr).move h.book hmove⟩
  | ignores => exact hnone.symm ▸ h
  | answers hlistens hm hresponse hw hid =>
    rw [hnone]
    refine ⟨h.book.dropWaiter _, fun call reply hr => ?_⟩
    cases hr
    have ht := h.book.waiters _ hw
    refine ⟨ht.call_lt, fun v hv hcall => ?_, fun c hc hnumber => (ht.waits c hc hnumber).2⟩
    obtain ⟨hmem, hother⟩ := List.mem_filter.1 hv
    obtain rfl := h.book.eq_of_call hmem hw hcall
    simp [hid] at hother
  | enqueues hlistens =>
    rw [hnone]
    refine ⟨?_, fun call reply hr => absurd hr (enqueue_not_answers hlistens _ _ call reply)⟩
    rw [book_enqueue]
    exact h.book
  | passesOn hanswers =>
    rw [hnone]
    exact ⟨h.book.setChannel (h.passes _ _ hanswers) _, fun call reply hr => by cases hr⟩
  | takes =>
    refine ⟨?_, fun call reply hr => ?_⟩
    · rw [book_advance]
      exact hnone.symm ▸ h.book
    · rw [book_advance]
      exact h.passes call reply (answers_of_advance hr)
  | closesQueue =>
    refine ⟨?_, fun call reply hr => ?_⟩
    · rw [book_closeQueue]
      exact hnone.symm ▸ h.book
    · rw [book_closeQueue]
      exact h.passes call reply (answers_of_closeQueue hr)
  | stop => exact hnone.symm ▸ ⟨h.book, h.passes⟩
  | receiverEnds => exact hnone.symm ▸ ⟨h.book, fun call reply hr => by cases hr⟩

end Exchange

end SignedRecords
