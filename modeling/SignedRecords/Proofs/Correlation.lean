import SignedRecords.Proofs.Replies

/-!
# Requests and responses over a run

What holds after any events in any order: requests end once, a reply is the first response with
the id of its request, what is no response goes through the queue once, and who has heard is
waited for no more.
-/

namespace SignedRecords

/-- The messages in some events that are no responses, in the order of time. -/
def ExchangePast.others (past : ExchangePast) : List (Address × Message) :=
  past.reverse.filterMap fun p => other? p.2

theorem ExchangePast.others_cons (p : Stamp × ExchangeEvent) (past : ExchangePast) :
    others (p :: past) = past.others ++ (other? p.2).toList := by
  rw [others, List.reverse_cons, List.filterMap_append, ← others]
  cases h : other? p.2 <;> simp [h]

/-- The message that waits for room in the queue. -/
def Receiver.held : Receiver → List (Address × Message)
  | .holds source m => [(source, m)]
  | _ => []

namespace Exchange

open RequestBook (idOf endedIn)

/-! ## The queue -/

/-- The messages that are handed out from the queue. -/
def handedIn (deeds : List ExchangeAction) : List (Address × Message) :=
  deeds.filterMap fun
    | .hands source m => some (source, m)
    | _ => none

variable {past : ExchangePast} {x y : Exchange} {deeds more : List ExchangeAction}
  {now : Stamp} {event : ExchangeEvent}

theorem handed_of_move {b b' : RequestBook} (hmove : b.Moves now event b' more) :
    handedIn more = [] ∧ other? event = none := by
  cases hmove with
  | fails hevent | hears hevent | hearsEnd hevent | letsGo hevent => exact ⟨rfl, hevent.other?⟩
  | refuses | begins | registers | sent | abandons => exact ⟨rfl, rfl⟩

theorem other?_of_ok {source : Address} {bytes : Bytes} {m : Message}
    (h : messageIn bytes = .ok m) :
    other? (.datagram source bytes) = if m.isResponse then none else some (source, m) := by
  cases hresponse : m.isResponse <;> simp [other?, h, Except.toOption, hresponse]

theorem enqueue_open (source : Address) (m : Message) :
    (x.enqueue source m).queueOpen = x.queueOpen := by
  unfold enqueue
  split
  · rfl
  · split <;> rfl

theorem held_enqueue (hlistens : x.receiver = .listens) (hopen : x.queueOpen = true)
    (source : Address) (m : Message) :
    (x.enqueue source m).queue ++ (x.enqueue source m).receiver.held =
      x.queue ++ [(source, m)] := by
  rw [enqueue, if_neg (by simp [hopen])]
  split <;> simp [hlistens, Receiver.held]

theorem advance_open (others : List (Address × Message)) :
    (x.advance others).queueOpen = x.queueOpen := by
  unfold advance
  split <;> rfl

theorem held_advance (others : List (Address × Message)) :
    (x.advance others).queue ++ (x.advance others).receiver.held = others ++ x.receiver.held := by
  unfold advance
  split
  · rename_i hholds
    simp [hholds, Receiver.held]
  · rfl

/-- What a step adds to the messages that went into an open queue or wait for room in it. -/
theorem handed_step (hstep : x.step now event = some (y, more)) (hopen : y.queueOpen = true) :
    x.queueOpen = true ∧ handedIn more ++ y.queue ++ y.receiver.held =
      x.queue ++ x.receiver.held ++ (other? event).toList := by
  cases moves_of_step hstep with
  | requests hmove =>
    obtain ⟨hhanded, hother⟩ := handed_of_move hmove
    exact ⟨hopen, by simp [hhanded, hother]⟩
  | ignores hlistens hignored =>
    rename_i source bytes
    refine ⟨hopen, ?_⟩
    cases hm : messageIn bytes with
    | error e => simp [handedIn, other?, hm, Except.toOption]
    | ok m => simp [handedIn, other?_of_ok hm, (hignored m hm).1]
  | answers hlistens hm hresponse =>
    exact ⟨hopen, by simp [handedIn, other?_of_ok hm, hresponse, hlistens, Receiver.held]⟩
  | enqueues hlistens hm hresponse =>
    rw [enqueue_open] at hopen
    refine ⟨hopen, ?_⟩
    show (x.enqueue _ _).queue ++ (x.enqueue _ _).receiver.held = _
    rw [held_enqueue hlistens hopen, other?_of_ok hm, hresponse, hlistens]
    simp [Receiver.held]
  | passesOn hanswers =>
    exact ⟨hopen, by simp [handedIn, other?, passOn, hanswers, Receiver.held]⟩
  | takes hqueue =>
    rw [advance_open] at hopen
    exact ⟨hopen, by simp [handedIn, other?, hqueue, held_advance]⟩
  | closesQueue =>
    unfold closeQueue at hopen
    split at hopen <;> cases hopen
  | stop => exact ⟨hopen, by simp [handedIn, other?]⟩
  | receiverEnds hlistens =>
    exact ⟨hopen, by simp [handedIn, other?, hlistens, Receiver.held]⟩

/-! ## Runs -/

theorem after_cons {p : Stamp × ExchangeEvent} (h : after (p :: past) = some (y, deeds)) :
    ∃ x before more, after past = some (x, before) ∧ x.step p.1 p.2 = some (y, more) ∧
      deeds = before ++ more := by
  obtain ⟨⟨x, before⟩, hpast, h⟩ := Option.bind_eq_some_iff.1 h
  obtain ⟨⟨z, more⟩, hstep, h⟩ := Option.bind_eq_some_iff.1 h
  cases h
  exact ⟨x, before, more, hpast, hstep, rfl⟩

theorem endedIn_append (deeds more : List ExchangeAction) :
    endedIn (deeds ++ more) = endedIn deeds ++ endedIn more :=
  List.filterMap_append

theorem tidy_after (h : after past = some (x, deeds)) : x.Tidy (endedIn deeds) := by
  induction past generalizing x deeds with
  | nil =>
    cases h
    exact tidy_fresh
  | cons p past ih =>
    obtain ⟨y, before, more, hpast, hstep, rfl⟩ := after_cons h
    rw [endedIn_append]
    exact (ih hpast).step hstep

theorem tells_after (h : after past = some (x, deeds)) : Tells past x deeds := by
  induction past generalizing x deeds with
  | nil =>
    cases h
    exact tells_fresh
  | cons p past ih =>
    obtain ⟨y, before, more, hpast, hstep, rfl⟩ := after_cons h
    exact (ih hpast).step (tidy_after hpast) hstep

/-- While the queue is read, what came and is no response was handed out or waits, in order. -/
theorem handed_after (h : after past = some (x, deeds)) (hopen : x.queueOpen = true) :
    handedIn deeds ++ x.queue ++ x.receiver.held = past.others := by
  induction past generalizing x deeds with
  | nil =>
    cases h
    rfl
  | cons p past ih =>
    obtain ⟨y, before, more, hpast, hstep, rfl⟩ := after_cons h
    obtain ⟨hbefore, hmore⟩ := handed_step hstep hopen
    have hpassed := ih hpast hbefore
    rw [ExchangePast.others_cons, ← hpassed]
    simp only [handedIn, List.filterMap_append, List.append_assoc] at hmore ⊢
    rw [hmore]

/-! ## Requests and responses -/

theorem asked_append (later : ExchangePast) (past : ExchangePast) :
    ExchangePast.asked (later ++ past) = past.asked ++ later.asked := by
  simp [ExchangePast.asked, List.filterMap_append]

/-- What the requests of an exchange have heard, after some events that led to some deeds. -/
structure Correlates (past : ExchangePast) (x : Exchange) (deeds : List ExchangeAction) : Prop where
  /-- A request ends at most once. -/
  once : (endedIn deeds).Nodup
  /-- A reply is a response with the id that was put into the request. Its datagram was received
      after the request had begun, and was the first such one after the request had registered. -/
  replied : ∀ call reply, .ends call (.ok reply) ∈ deeds → ∃ target m bytes source before,
    before.asked[call]? = some (target, m) ∧ datagramOf (m.withId reply.id) = .ok bytes ∧
      .transmits call target bytes ∈ deeds ∧ Answers past call reply source before
  /-- A datagram answers at most one request. -/
  single : ∀ call call' reply reply' source source' before,
    Answers past call reply source before → Answers past call' reply' source' before →
      call = call'
  /-- A response that nobody waits for changes nothing. -/
  unmatched : ∀ now source bytes m, x.receiver = .listens → messageIn bytes = .ok m →
    m.isResponse → (∀ w ∈ x.book.waiters, w.id ≠ m.id) →
      x.step now (.datagram source bytes) = some (x, [])
  /-- A response for a request that was abandoned changes nothing either, but that its waiter
      goes. -/
  stale : ∀ now now' source bytes m, x.receiver = .listens → messageIn bytes = .ok m →
    m.isResponse → (∀ c ∈ x.book.calls, c.id ≠ m.id) → ∃ y,
      x.step now (.datagram source bytes) = some (y, []) ∧ (y = x ∨
        y.step now' .passesOn = some ({ x with book := x.book.dropWaiter m.id }, []))
  /-- While the queue is read, each message that was received and is no response was handed out
      from it or waits, once and in order. -/
  queued : x.queueOpen = true → handedIn deeds ++ x.queue ++ x.receiver.held = past.others
  /-- A message that is no response leaves the requests and the waiters alone. -/
  untouched : ∀ now source bytes m y more, messageIn bytes = .ok m → m.isResponse = false →
    x.step now (.datagram source bytes) = some (y, more) → y.book = x.book
  /-- Nobody waits for a request that has ended, nor under its id. -/
  forgotten : ∀ call ∈ endedIn deeds, ∀ w ∈ x.book.waiters, w.call ≠ call ∧ w.id ≠ idOf call

theorem Awaited.lt {call : Nat} (h : Awaited past call) : call < past.asked.length := by
  obtain ⟨since, now, before, rfl, hlt, -⟩ := h
  rw [List.append_cons, asked_append, List.length_append]
  exact Nat.lt_add_right _ hlt

/-- Two answers that came with one datagram are for one request. -/
theorem Answers.eq_call {call call' : Nat} {reply reply' : Message} {source source' : Address}
    {before : ExchangePast} (h : Answers past call reply source before)
    (h' : Answers past call' reply' source' before) (hcount : past.asked.length < 2 ^ 64) :
    call = call' := by
  obtain ⟨later, at₁, bytes, hpast, hm⟩ := h.received
  obtain ⟨later', at₂, bytes', hpast', hm'⟩ := h'.received
  have hsame := hpast.symm.trans hpast'
  rw [List.append_cons, List.append_cons later'] at hsame
  cases (List.append_inj' (List.append_cancel_right hsame) rfl).2
  obtain rfl : reply = reply' := Except.ok.inj (hm.symm.trans hm')
  have hle : before.asked.length ≤ past.asked.length := by
    rw [hpast, List.append_cons, asked_append, List.length_append]
    exact Nat.le_add_right _ _
  have hlt := h.awaited.lt
  have hlt' := h'.awaited.lt
  exact RequestBook.idOf_inj (by omega) (by omega) (h.id_eq.symm.trans h'.id_eq)

/-- A reply answers the request that is told with it. -/
theorem replied_after (h : after past = some (x, deeds)) {call : Nat} {reply : Message}
    (hends : .ends call (.ok reply) ∈ deeds) : ∃ target m bytes source before,
      before.asked[call]? = some (target, m) ∧ datagramOf (m.withId reply.id) = .ok bytes ∧
        .transmits call target bytes ∈ deeds ∧ Answers past call reply source before := by
  obtain ⟨⟨source, before, hanswers⟩, target, m, bytes, hasked, hbytes, hsent⟩ :=
    (tells_after h).ended call reply hends
  refine ⟨target, m, bytes, source, before, ?_, hanswers.id_eq ▸ hbytes, hsent, hanswers⟩
  obtain ⟨later, now, datagram, rfl, -⟩ := hanswers.received
  rw [List.append_cons, asked_append, List.getElem?_append_left hanswers.awaited.lt] at hasked
  exact hasked

theorem alter_of_ne {b : RequestBook} {call : Nat} (h : ∀ c ∈ b.calls, c.number ≠ call)
    (change : RequestCall → RequestCall) : b.alter call change = b := by
  have hcalls : (b.calls.map fun c => if c.number = call then change c else c) = b.calls :=
    (List.map_congr_left fun c hc => if_neg (h c hc)).trans (List.map_id _)
  rw [RequestBook.alter, hcalls]

theorem step_unmatched {source : Address} {bytes : Bytes} {m : Message}
    (hlistens : x.receiver = .listens) (hm : messageIn bytes = .ok m) (hresponse : m.isResponse)
    (hnobody : ∀ w ∈ x.book.waiters, w.id ≠ m.id) :
    x.step now (.datagram source bytes) = some (x, []) := by
  have hnone : x.book.waiters.find? (·.id == m.id) = none :=
    List.find?_eq_none.2 fun w hw => by simpa using hnobody w hw
  simp [step, hlistens, receive, hm, hresponse, answer, hnone]

theorem step_stale {now' : Stamp} {source : Address} {bytes : Bytes} {m : Message}
    (htidy : x.Tidy (endedIn deeds)) (hlistens : x.receiver = .listens)
    (hm : messageIn bytes = .ok m) (hresponse : m.isResponse)
    (hnobody : ∀ c ∈ x.book.calls, c.id ≠ m.id) : ∃ y,
      x.step now (.datagram source bytes) = some (y, []) ∧ (y = x ∨
        y.step now' .passesOn = some ({ x with book := x.book.dropWaiter m.id }, [])) := by
  cases hfind : x.book.waiters.find? (·.id == m.id) with
  | none =>
    refine ⟨x, step_unmatched hlistens hm hresponse fun w hw => ?_, .inl rfl⟩
    simpa using List.find?_eq_none.1 hfind w hw
  | some w =>
    refine ⟨_, by simp [step, hlistens, receive, hm, hresponse, answer, hfind]; rfl, .inr ?_⟩
    have hw := htidy.book.waiters w (List.mem_of_find?_eq_some hfind)
    have hid : w.id = m.id := by simpa using List.find?_some hfind
    have hgone : ∀ c ∈ (x.book.dropWaiter m.id).calls, c.number ≠ w.call := by
      intro c hc hnumber
      refine hnobody c hc ?_
      rw [(htidy.book.calls c hc).id_eq, hnumber, ← hw.id_eq, hid]
    simp [step, passOn, alter_of_ne hgone, hlistens]

theorem book_of_other {source : Address} {bytes : Bytes} {m : Message}
    (hm : messageIn bytes = .ok m) (hother : m.isResponse = false)
    (hstep : x.step now (.datagram source bytes) = some (y, more)) : y.book = x.book := by
  simp only [step] at hstep
  split at hstep
  · cases hstep
    simp [receive, hm, hother, book_enqueue]
  · cases hstep

/-- Fewer than 2^64 requests and any events in any order. -/
theorem requests_correlate (h : after past = some (x, deeds)) (hcount : x.book.requests < 2 ^ 64) :
    Correlates past x deeds where
  once := (tidy_after h).book.nodup_ended
  replied _ _ hends := replied_after h hends
  single _ _ _ _ _ _ _ hanswers hanswers' :=
    hanswers.eq_call hanswers' ((tells_after h).requests_eq ▸ hcount)
  unmatched _ _ _ _ := step_unmatched
  stale _ _ _ _ _ := step_stale (tidy_after h)
  queued := handed_after h
  untouched _ _ _ _ _ _ := book_of_other
  forgotten call hcall w hw := by
    have htidy := tidy_after h
    have ht := htidy.book.waiters w hw
    have hother : w.call ≠ call := fun hsame => ht.not_ended (hsame ▸ hcall)
    have hlt := htidy.book.ended_lt call hcall
    refine ⟨hother, fun hid => hother ?_⟩
    exact RequestBook.idOf_inj (by have := ht.call_lt; omega) (by omega) (ht.id_eq.symm.trans hid)

/-! ## A node that asks two others -/

/-- The address of the node with a number. -/
def sampleHost (n : UInt8) : Address := .v4 ⟨[10, 0, 0, n], rfl⟩ 6881

/-- A time. -/
def sampleTime : Stamp := .ofNanos 5000000000

/-- The node with a number. -/
def samplePeer (n : UInt8) : Peer := ⟨n.toNat, sampleHost n, sampleTime⟩

/-- The octets of a message of the node with a number. -/
def sampleDatagram (n : UInt8) (message : Peer → Message) : ExchangeEvent :=
  .datagram (sampleHost n) ((Codec.write (message (samplePeer n))).toOption.getD [])

/-- A ping to the node with a number. -/
def samplePing (n : UInt8) : ExchangeEvent := .request (sampleHost n) (.ping (samplePeer 0) 0) 250

/-- Events at one time, given in their order. -/
def sampleOf (events : List ExchangeEvent) : ExchangePast := (events.map (sampleTime, ·)).reverse

/-- Two requests at once. The second one is answered, twice, and the first one is not; a third node
    sends an octet that is no message, and a ping of its own. -/
def sampleTwo : ExchangePast :=
  sampleOf [samplePing 1, samplePing 2, .registers 1, .registers 0, .sent 0, .sent 1,
    .datagram (sampleHost 3) [255], sampleDatagram 2 (.pong · 2), .passesOn,
    sampleDatagram 2 (.pong · 2), sampleDatagram 3 (.ping · 7), .wakes 1, .timesUp 0, .takes]

theorem requests_correlate_of_two :
    ∃ x deeds, after sampleTwo = some (x, deeds) ∧ x.book.requests < 2 ^ 64 ∧
      endedIn deeds = [1, 0] ∧ handedIn deeds = [(sampleHost 3, .ping (samplePeer 3) 7)] ∧
      Correlates sampleTwo x deeds := by
  obtain ⟨⟨x, deeds⟩, h⟩ := Option.isSome_iff_exists.1 (by rfl : (after sampleTwo).isSome = true)
  have hrequests : (after sampleTwo).map (fun r => r.1.book.requests) = some 2 := by rfl
  have hended : (after sampleTwo).map (fun r => endedIn r.2) = some [1, 0] := by rfl
  have hhanded : (after sampleTwo).map (fun r => handedIn r.2) =
      some [(sampleHost 3, .ping (samplePeer 3) 7)] := by rfl
  rw [h] at hrequests hended hhanded
  have htwo : x.book.requests = 2 := Option.some_inj.1 hrequests
  have hcount : x.book.requests < 2 ^ 64 := by omega
  exact ⟨x, deeds, h, hcount, Option.some_inj.1 hended, Option.some_inj.1 hhanded,
    requests_correlate h hcount⟩

/-! ## Where replies come from -/

/-- A reply is chosen by its id alone. It is the first response with the id of the request that was
    received after the request had registered, and it comes from the address that was asked when
    every response with this id does. The address that a response comes from makes no difference. -/
theorem replies_match_by_id :
    (∀ (past : ExchangePast) x deeds call reply, after past = some (x, deeds) →
      .ends call (.ok reply) ∈ deeds → ∃ target m source before,
        past.asked[call]? = some (target, m) ∧
        Answers past call reply source before ∧
        ((∀ p ∈ past, ∀ s bytes r, p.2 = .datagram s bytes → messageIn bytes = .ok r →
          r.isResponse → r.id = reply.id → s = target) → source = target)) ∧
    ∀ (x : Exchange) now s s' bytes r, messageIn bytes = .ok r → r.isResponse →
      x.step now (.datagram s bytes) = x.step now (.datagram s' bytes) := by
  constructor
  · intro past x deeds call reply h hends
    obtain ⟨⟨source, before, hanswers⟩, target, m, -, hasked, -⟩ :=
      (tells_after h).ended call reply hends
    refine ⟨target, m, source, before, hasked, hanswers, fun hhonest => ?_⟩
    obtain ⟨later, now, bytes, hpast, hm⟩ := hanswers.received
    have hmem : (now, ExchangeEvent.datagram source bytes) ∈ past := by simp [hpast]
    exact hhonest _ hmem source bytes reply rfl hm hanswers.isResponse rfl
  · intro x now s s' bytes r hm hresponse
    simp [step, receive, hm, hresponse]

/-- The node 1 is asked, and the node 9 answers in its place. -/
def sampleStranger : ExchangePast :=
  sampleOf [samplePing 1, .registers 0, .sent 0, sampleDatagram 9 (.pong · 1), .passesOn, .wakes 0]

theorem replies_match_by_id_of_stranger :
    (∃ x deeds target m source before, after sampleStranger = some (x, deeds) ∧
      .ends 0 (.ok (.pong (samplePeer 9) 1)) ∈ deeds ∧
      sampleStranger.asked[0]? = some (target, m) ∧
      Answers sampleStranger 0 (.pong (samplePeer 9) 1) source before) ∧
    fresh.step sampleTime (sampleDatagram 1 fun _ => .pong (samplePeer 9) 1) =
      fresh.step sampleTime (sampleDatagram 9 (.pong · 1)) := by
  constructor
  · obtain ⟨⟨x, deeds⟩, h⟩ :=
      Option.isSome_iff_exists.1 (by rfl : (after sampleStranger).isSome = true)
    have hends : (after sampleStranger).map (·.2[1]?) =
        some (some (.ends 0 (.ok (.pong (samplePeer 9) 1)))) := by rfl
    rw [h] at hends
    have hmem := List.mem_of_getElem? (Option.some_inj.1 hends)
    obtain ⟨target, m, source, before, hasked, hanswers, -⟩ :=
      replies_match_by_id.1 _ x deeds 0 _ h hmem
    exact ⟨x, deeds, target, m, source, before, h, hmem, hasked, hanswers⟩
  · exact replies_match_by_id.2 fresh sampleTime _ _ _ (.pong (samplePeer 9) 1) (by rfl) rfl

/-- Who was asked is not always who answers. -/
theorem not_replies_from_target :
    ¬ ∀ (past : ExchangePast) x deeds call reply target m, after past = some (x, deeds) →
      .ends call (.ok reply) ∈ deeds → past.asked[call]? = some (target, m) →
        ∃ p ∈ past, ∃ bytes, p.2 = .datagram target bytes ∧ messageIn bytes = .ok reply := by
  intro hclaim
  obtain ⟨⟨x, deeds⟩, h⟩ :=
    Option.isSome_iff_exists.1 (by rfl : (after sampleStranger).isSome = true)
  have hends : (after sampleStranger).map (·.2[1]?) =
      some (some (.ends 0 (.ok (.pong (samplePeer 9) 1)))) := by rfl
  rw [h] at hends
  have hasked : sampleStranger.asked[0]? = some (sampleHost 1, .ping (samplePeer 0) 0) := by rfl
  obtain ⟨p, hp, bytes, hdatagram, -⟩ :=
    hclaim _ x deeds 0 _ _ _ h (List.mem_of_getElem? (Option.some_inj.1 hends)) hasked
  -- the one datagram of the run is that of the node 9
  simp only [sampleStranger, sampleOf, List.map_cons, List.map_nil, List.mem_reverse,
    List.mem_cons, List.not_mem_nil, or_false] at hp
  rcases hp with rfl | rfl | rfl | rfl | rfl | rfl <;> cases hdatagram

end Exchange

end SignedRecords
