import SignedRecords.Proofs.Waiters

/-!
# Replies

A reply that a request ends with is the first response with the id of the request that was
received after the request had registered. It is the sources of the datagrams that decide nothing.
-/

namespace SignedRecords

/-! ## What has happened -/

/-- Events with their times, the latest first. -/
abbrev ExchangePast : Type := List (Stamp × ExchangeEvent)

/-- The requests in some events, in the order of time. -/
def ExchangePast.asked (past : ExchangePast) : List (Address × Message) :=
  past.reverse.filterMap fun p => request? p.2

theorem ExchangePast.asked_cons (p : Stamp × ExchangeEvent) (past : ExchangePast) :
    asked (p :: past) = past.asked ++ (request? p.2).toList := by
  rw [asked, List.reverse_cons, List.filterMap_append, ← asked]
  cases h : request? p.2 <;> simp [h]

theorem ExchangePast.asked_of_none {p : Stamp × ExchangeEvent} (h : request? p.2 = none)
    (past : ExchangePast) : asked (p :: past) = past.asked := by
  rw [asked_cons, h, Option.toList_none, List.append_nil]

namespace Exchange

open RequestBook (idOf)

/-- A request has registered, and since then no response with its id was received. -/
def Awaited (past : ExchangePast) (call : Nat) : Prop :=
  ∃ since now, ∃ before : ExchangePast, past = since ++ (now, .registers call) :: before ∧
    call < before.asked.length ∧ ∀ p ∈ since, ∀ m ∈ responseIn p.2, m.id ≠ idOf call

/-- What came after the events `before` was a datagram from a source with the first response for
    a request. -/
structure Answers (past : ExchangePast) (call : Nat) (reply : Message) (source : Address)
    (before : ExchangePast) : Prop where
  received : ∃ later now bytes, past = later ++ (now, .datagram source bytes) :: before ∧
    messageIn bytes = .ok reply
  isResponse : reply.isResponse
  id_eq : reply.id = idOf call
  awaited : Awaited before call

theorem Awaited.later {past : ExchangePast} {call : Nat} (h : Awaited past call)
    {p : Stamp × ExchangeEvent} (hp : ∀ m ∈ responseIn p.2, m.id ≠ idOf call) :
    Awaited (p :: past) call := by
  obtain ⟨since, now, before, rfl, hlt, hsince⟩ := h
  exact ⟨p :: since, now, before, rfl, hlt, List.forall_mem_cons.2 ⟨hp, hsince⟩⟩

theorem Answers.later {past before : ExchangePast} {call : Nat} {reply : Message}
    {source : Address} (h : Answers past call reply source before) (p : Stamp × ExchangeEvent) :
    Answers (p :: past) call reply source before := by
  obtain ⟨⟨later, now, bytes, rfl, hm⟩, hresponse, hid, hawaited⟩ := h
  exact ⟨⟨p :: later, now, bytes, rfl, hm⟩, hresponse, hid, hawaited⟩

/-- What a request asks has been asked, and its datagram is on its way or was handed out. -/
def Carries (deeds : List ExchangeAction) (c : RequestCall) (m : Message) : Prop :=
  ∃ bytes, datagramOf (m.withId c.id) = .ok bytes ∧
    (c.stage = .ready bytes ∨
      (∀ datagram, c.stage ≠ .ready datagram) ∧ .transmits c.number c.target bytes ∈ deeds)

/-- What an exchange holds is what has happened. -/
structure Tells (past : ExchangePast) (x : Exchange) (deeds : List ExchangeAction) : Prop where
  requests_eq : x.book.requests = past.asked.length
  carries : ∀ c ∈ x.book.calls, ∃ m, past.asked[c.number]? = some (c.target, m) ∧
    Carries deeds c m
  awaited : ∀ w ∈ x.book.waiters, Awaited past w.call
  passes : ∀ call reply, x.receiver = .answers call reply →
    ∃ source before, Answers past call reply source before
  holds : ∀ c ∈ x.book.calls, ∀ reply, c.channel = .holds reply →
    ∃ source before, Answers past c.number reply source before
  ended : ∀ call reply, .ends call (.ok reply) ∈ deeds →
    (∃ source before, Answers past call reply source before) ∧
      ∃ target m bytes, past.asked[call]? = some (target, m) ∧
        datagramOf (m.withId (idOf call)) = .ok bytes ∧ .transmits call target bytes ∈ deeds

theorem tells_fresh : Tells [] fresh [] where
  requests_eq := rfl
  carries := by simp [fresh]
  awaited := by simp [fresh]
  passes call reply h := by cases h
  holds := by simp [fresh]
  ended := by simp

variable {past : ExchangePast} {x : Exchange} {deeds more : List ExchangeAction}

theorem asked_later {call : Nat} {request : Address × Message}
    (h : past.asked[call]? = some request) (p : Stamp × ExchangeEvent) :
    (ExchangePast.asked (p :: past))[call]? = some request := by
  rw [ExchangePast.asked_cons]
  obtain ⟨hlt, -⟩ := List.getElem?_eq_some_iff.1 h
  rw [List.getElem?_append_left hlt, h]

theorem answered_later {call : Nat} {reply : Message}
    (h : ∃ source before, Answers past call reply source before) (p : Stamp × ExchangeEvent) :
    ∃ source before, Answers (p :: past) call reply source before := by
  obtain ⟨source, before, hanswers⟩ := h
  exact ⟨source, before, hanswers.later p⟩

/-- What a request has ended with stays what it was. -/
theorem Tells.ended_later (h : Tells past x deeds) {call : Nat} {reply : Message}
    (hends : .ends call (.ok reply) ∈ deeds) (p : Stamp × ExchangeEvent)
    {later : List ExchangeAction} (hlater : deeds ⊆ later) :
    (∃ source before, Answers (p :: past) call reply source before) ∧
      ∃ target m bytes, (ExchangePast.asked (p :: past))[call]? = some (target, m) ∧
        datagramOf (m.withId (idOf call)) = .ok bytes ∧ .transmits call target bytes ∈ later := by
  obtain ⟨hanswers, target, m, bytes, hasked, hbytes, hsent⟩ := h.ended call reply hends
  exact ⟨answered_later hanswers p, target, m, bytes, asked_later hasked p, hbytes, hlater hsent⟩

/-- Whom and what a request asks does not change with how far it has come. -/
theorem Carries.stems {c d : RequestCall} {m : Message} (h : Carries deeds c m)
    (hstems : RequestBook.Stems d c more) : Carries (deeds ++ more) d m := by
  obtain ⟨bytes, hbytes, hstage⟩ := h
  refine ⟨bytes, hstems.id_eq ▸ hbytes, ?_⟩
  rw [hstems.number_eq, hstems.target_eq]
  rcases hstems.stage with hsame | ⟨hsending, hwaiting⟩ | ⟨hsending, datagram, hready, hmore⟩
  · rw [hsame]
    exact hstage.imp_right fun ⟨hregistered, hmem⟩ => ⟨hregistered, List.mem_append_left _ hmem⟩
  · rcases hstage with hready | ⟨-, hmem⟩
    · cases hready.symm.trans hsending
    · refine .inr ⟨fun datagram h => ?_, List.mem_append_left _ hmem⟩
      cases hwaiting.symm.trans h
  · rcases hstage with hbytes | ⟨hregistered, -⟩
    · obtain rfl : datagram = bytes := by
        cases hready.symm.trans hbytes
        rfl
      refine .inr ⟨fun datagram h => ?_, List.mem_append_right _ hmore⟩
      cases hsending.symm.trans h
    · exact absurd hready (hregistered datagram)

/-- Events that leave the requests alone, but for what the receiver is about. -/
theorem Tells.same (h : Tells past x deeds) {y : Exchange} {p : Stamp × ExchangeEvent}
    (hbook : y.book = x.book) (hrequest : request? p.2 = none)
    (hresponse : ∀ w ∈ x.book.waiters, ∀ m ∈ responseIn p.2, m.id ≠ idOf w.call)
    (hreceiver : ∀ call reply, y.receiver = .answers call reply →
      x.receiver = .answers call reply)
    (hmore : ∀ call result, .ends call result ∉ more) :
    Tells (p :: past) y (deeds ++ more) where
  requests_eq := by rw [hbook, h.requests_eq, ExchangePast.asked_of_none hrequest]
  carries c hc := by
    rw [hbook] at hc
    obtain ⟨m, hm, hcarries⟩ := h.carries c hc
    exact ⟨m, asked_later hm p, hcarries.stems (.refl c more)⟩
  awaited w hw := by
    rw [hbook] at hw
    exact (h.awaited w hw).later (hresponse w hw)
  passes call reply hy := answered_later (h.passes call reply (hreceiver call reply hy)) p
  holds c hc reply hholds := answered_later (h.holds c (hbook ▸ hc) reply hholds) p
  ended call reply hends := by
    rcases List.mem_append.1 hends with hends | hends
    · exact h.ended_later hends p (List.subset_append_left _ _)
    · exact absurd hends (hmore call _)

theorem responseIn_eq_none_of_move {b b' : RequestBook} {now : Stamp} {event : ExchangeEvent}
    (hmove : b.Moves now event b' more) : responseIn event = none := by
  cases hmove with
  | fails hevent | hears hevent | hearsEnd hevent | letsGo hevent => exact hevent.responseIn
  | refuses | begins | registers | sent | abandons => rfl

/-- What a request ends with after a move was in its channel. -/
theorem holds_of_move {b b' : RequestBook} {now : Stamp} {event : ExchangeEvent} {call : Nat}
    {reply : Message} (hmove : b.Moves now event b' more) (hends : .ends call (.ok reply) ∈ more) :
    ∃ c ∈ b.calls, c.number = call ∧ c.stage = .waiting ∧ c.channel = .holds reply := by
  cases hmove with
  | hears _ hc hstage hholds =>
    cases List.mem_singleton.1 hends
    exact ⟨_, hc, rfl, hstage, hholds⟩
  | _ => simp at hends

theorem Tells.requests (h : Tells past x deeds) {ended : List Nat} (htidy : x.Tidy ended)
    {now : Stamp} {event : ExchangeEvent} {book : RequestBook}
    (hmove : x.book.Moves now event book more) :
    Tells ((now, event) :: past) { x with book } (deeds ++ more) := by
  have hnone := responseIn_eq_none_of_move hmove
  have hasked := ExchangePast.asked_cons (now, event) past
  refine ⟨?_, fun d hd => ?_, fun w hw => ?_, fun call reply hr => ?_, fun d hd reply hholds => ?_,
    fun call reply hends => ?_⟩
  · rw [hasked, List.length_append, ← h.requests_eq]
    exact hmove.requests_eq
  · rcases hmove.stems htidy.book hd with
      ⟨c, hc, hstems⟩ | ⟨target, m, wait, bytes, rfl, hbytes, rfl⟩
    · obtain ⟨m, hm, hcarries⟩ := h.carries c hc
      refine ⟨m, ?_, hcarries.stems hstems⟩
      rw [hstems.number_eq, hstems.target_eq]
      exact asked_later hm _
    · refine ⟨m, ?_, bytes, hbytes, .inl rfl⟩
      rw [hasked, h.requests_eq]
      exact List.getElem?_concat_length
  · rcases hmove.waiters hw with hw | ⟨rfl, c, hc, hnumber, -⟩
    · exact (h.awaited w hw).later fun m hm => by simp [hnone] at hm
    · have hlt := (htidy.book.calls c hc).number_lt
      rw [h.requests_eq, hnumber] at hlt
      exact ⟨[], now, past, rfl, hlt, by simp⟩
  · exact answered_later (h.passes call reply hr) _
  · rcases hmove.stems htidy.book hd with ⟨c, hc, hstems⟩ | ⟨_, _, _, _, -, -, rfl⟩
    · rcases hstems.channel with hsame | hclosed
      · rw [hstems.number_eq]
        exact answered_later (h.holds c hc reply (hsame.symm.trans hholds)) _
      · cases hclosed.symm.trans hholds
    · cases hholds
  · rcases List.mem_append.1 hends with hends | hends
    · exact h.ended_later hends _ (List.subset_append_left _ _)
    · obtain ⟨c, hc, rfl, hstage, hholds⟩ := holds_of_move hmove hends
      obtain ⟨m, hm, bytes, hbytes, hready | ⟨-, hsent⟩⟩ := h.carries c hc
      · cases hready.symm.trans hstage
      · exact ⟨answered_later (h.holds c hc reply hholds) _, c.target, m, bytes,
          asked_later hm _, (htidy.book.calls c hc).id_eq ▸ hbytes, List.mem_append_left _ hsent⟩

theorem mem_responseIn {source : Address} {bytes : Bytes} {m : Message} :
    m ∈ responseIn (.datagram source bytes) ↔ messageIn bytes = .ok m ∧ m.isResponse := by
  rw [responseIn, Option.mem_def, Option.filter_eq_some_iff]
  cases messageIn bytes <;> simp [Except.toOption]

/-- A response is taken for who waits for it. -/
theorem Tells.answers (h : Tells past x deeds) {ended : List Nat} (htidy : x.Tidy ended)
    {now : Stamp} {source : Address} {bytes : Bytes} {m : Message} {w : Waiter}
    (hm : messageIn bytes = .ok m) (hresponse : m.isResponse) (hw : w ∈ x.book.waiters)
    (hid : w.id = m.id) :
    Tells ((now, .datagram source bytes) :: past)
      { x with book := x.book.dropWaiter m.id, receiver := .answers w.call m } deeds where
  requests_eq := by rw [ExchangePast.asked_of_none rfl]; exact h.requests_eq
  carries c hc := by
    obtain ⟨m, hm, hcarries⟩ := h.carries c hc
    exact ⟨m, asked_later hm _, hcarries⟩
  awaited v hv := by
    obtain ⟨hv, hother⟩ := List.mem_filter.1 hv
    refine (h.awaited v hv).later fun m' hm' => ?_
    obtain rfl : m = m' := Except.ok.inj (hm.symm.trans (mem_responseIn.1 hm').1)
    rw [← (htidy.book.waiters v hv).id_eq]
    exact Ne.symm (by simpa using hother)
  passes call reply hr := by
    cases hr
    exact ⟨source, past, ⟨[], now, bytes, rfl, hm⟩, hresponse,
      hid.symm.trans (htidy.book.waiters w hw).id_eq, h.awaited w hw⟩
  holds c hc reply hholds := answered_later (h.holds c hc reply hholds) _
  ended call reply hends := h.ended_later hends _ (List.Subset.refl deeds)

/-- A response comes into the channel of the request that it is for. -/
theorem Tells.passOn (h : Tells past x deeds) {now : Stamp} {call : Nat} {reply : Message}
    (hanswers : x.receiver = .answers call reply) :
    Tells ((now, .passesOn) :: past) (x.passOn call reply) deeds where
  requests_eq := by rw [ExchangePast.asked_of_none rfl]; exact h.requests_eq
  carries d hd := by
    obtain ⟨c, hc, ⟨-, rfl⟩ | ⟨-, rfl⟩⟩ := RequestBook.mem_calls_alter hd
    all_goals
      obtain ⟨m, hm, hcarries⟩ := h.carries _ hc
      exact ⟨m, asked_later hm _, hcarries⟩
  awaited w hw := (h.awaited w hw).later fun _ hm => by cases hm
  passes call reply hr := by cases hr
  holds d hd reply' hholds := by
    obtain ⟨c, hc, ⟨rfl, rfl⟩ | ⟨-, rfl⟩⟩ := RequestBook.mem_calls_alter hd
    · cases hholds
      exact answered_later (h.passes _ _ hanswers) _
    · exact answered_later (h.holds _ hc reply' hholds) _
  ended call reply hends := h.ended_later hends _ (List.Subset.refl deeds)

/-- What an exchange holds stays what has happened. -/
theorem Tells.step (h : Tells past x deeds) {ended : List Nat} (htidy : x.Tidy ended)
    {y : Exchange} {now : Stamp} {event : ExchangeEvent}
    (hstep : x.step now event = some (y, more)) :
    Tells ((now, event) :: past) y (deeds ++ more) := by
  cases moves_of_step hstep with
  | requests hmove => exact h.requests htidy hmove
  | ignores hlistens hignored =>
    refine h.same rfl rfl (fun w hw m hm => ?_) (fun _ _ hr => hr) (by simp)
    have hother := (hignored m (mem_responseIn.1 hm).1).2 w hw
    rw [(htidy.book.waiters w hw).id_eq] at hother
    exact Ne.symm hother
  | answers hlistens hm hresponse hw hid =>
    exact (List.append_nil deeds).symm ▸ h.answers htidy hm hresponse hw hid
  | enqueues hlistens hm hresponse =>
    refine h.same (book_enqueue _ _) rfl (fun w hw m' hm' => ?_) (fun call reply hr =>
      absurd hr (enqueue_not_answers hlistens _ _ call reply)) (by simp)
    obtain ⟨hm', hresponse'⟩ := mem_responseIn.1 hm'
    cases hm.symm.trans hm'
    exact absurd hresponse' (by simp [hresponse])
  | passesOn hanswers => exact (List.append_nil deeds).symm ▸ h.passOn hanswers
  | takes =>
    exact h.same (book_advance _) rfl (fun _ _ _ hm => by cases hm)
      (fun _ _ => answers_of_advance) (by simp)
  | closesQueue =>
    exact h.same book_closeQueue rfl (fun _ _ _ hm => by cases hm)
      (fun _ _ => answers_of_closeQueue) (by simp)
  | stop => exact h.same rfl rfl (fun _ _ _ hm => by cases hm) (fun _ _ hr => hr) (by simp)
  | receiverEnds =>
    exact h.same rfl rfl (fun _ _ _ hm => by cases hm) (fun _ _ hr => by cases hr) (by simp)

end Exchange

end SignedRecords
