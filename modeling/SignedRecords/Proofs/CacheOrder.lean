import SignedRecords.Proofs.NeutralKey
import SignedRecords.Proofs.ServiceRuns

/-!
# When a cached response gives way to an older one

The cache takes what it is given; only the store compares sequence numbers. So a cached response
gives way to an older one in three cases, and each needs a response that no store has seen: a
publish replaces what the DHT had answered, a lookup ends with less than what was cached since its
get began, or the store answers less than what the DHT had answered since the get began.

Main statement: `regress_of_lowers`.
-/

namespace SignedRecords

open ServiceMachine

/-- An event replaces the cached response of an id by an older one. -/
structure Lowers (m : ServiceMachine) (now : Nat) (event : ServiceEvent) (id : String)
    (old new : Response) : Prop where
  held : m.service.responses.held? id = some old
  replaced : (m.step now event).1.service.responses.held? id = some new
  older : new.sequence < old.sequence

/-- What is cached for an id and comes neither from a publish nor from the store: the DHT brought
    it last, or it was there at the start. -/
def HeldUnstored (m : ServiceMachine) (history : History) (id : String) (r : Response) : Prop :=
  m.lastCached? history id = some (.resolved id r) ∨
    (m.lastCached? history id = none ∧ m.service.responses.held? id = some r)

/-- A get of an id has begun in a history, without a response, and this was cached since. -/
def CachedSinceGet (m : ServiceMachine) (history : History) (call : Nat) (id : String)
    (b : Brought) : Prop :=
  ∃ later now text before, history = later ++ (now, .get call text) :: before ∧
    (readId text).toOption.map (·.2) = some id ∧
    (m.after ((now, .get call text) :: before)).lastCached? later id = some b

/-- The ways in which an event replaces the cached response of an id by an older one. -/
inductive Regress (m : ServiceMachine) (history : History) (event : ServiceEvent) (id : String)
    (old new : Response) : Prop where
  /-- A publish has written, and what it replaces is not from the store. -/
  | published (record : Record)
      (hbrings : (m.after history).brings? event = some (.published id record))
      (hnew : record.response = new) (hold : HeldUnstored m history id old)
  /-- The lookup of a get ends, and what it replaces was cached after the get began. -/
  | resolved (call : Nat) (turn : LookupTurn) (b : Brought)
      (hevent : event = .lookup call turn)
      (hbrings : (m.after history).brings? event = some (.resolved id new))
      (hold : b.response = old) (hsince : CachedSinceGet m history call id b)
  /-- The store answers a get, and what it replaces the DHT has brought after the get began. -/
  | restored (call : Nat) (turn : StoreTurn) (record : Record)
      (hevent : event = .store call turn)
      (hbrings : (m.after history).brings? event = some (.restored id record))
      (hnew : record.response = new)
      (hsince : CachedSinceGet m history call id (.resolved id old))

/-- A store that holds nothing so new has not seen a cached response: the DHT brought it. -/
theorem eq_resolved_of_not_holds {m : ServiceMachine} (hv : m.WritesValid) {history : History}
    {id : String} {b : Brought} (hb : m.lastCached? history id = some b)
    (hno : ¬ (m.after history).service.store.Holds id b.response.sequence) :
    b = .resolved id b.response := by
  obtain ⟨hmem, rfl⟩ := lastCached?_eq_some hb
  have hbrought := mem_broughtIn_of_mem_cachedIn hmem
  cases b with
  | resolved id response => rfl
  | published id record => exact absurd (sequence_of_broughtIn hv hbrought rfl).2 hno
  | restored id record => exact absurd (sequence_of_broughtIn hv hbrought rfl).2 hno

theorem heldUnstored_of_not_holds {m : ServiceMachine} (hv : m.WritesValid)
    (hd : m.service.responses.Distinct) {history : History} {id : String} {r : Response}
    (hheld : (m.after history).service.responses.held? id = some r)
    (hno : ¬ (m.after history).service.store.Holds id r.sequence) :
    HeldUnstored m history id r := by
  rcases held?_after hd hheld with ⟨b, hb, rfl⟩ | hstart
  · left
    rw [hb, ← eq_resolved_of_not_holds hv hb hno]
  · exact .inr hstart

/-- What is cached while a get still looks for its id was cached after the get began; what the
    store has not seen, the DHT brought. -/
theorem cachedSinceGet_of_held {m : ServiceMachine} (hcalls : m.calls = [])
    (hv : m.WritesValid) (hd : m.service.responses.Distinct) {history : History} {call : Nat}
    {id : String} (hseek : (m.after history).Seeking call id) {r : Response}
    (hheld : (m.after history).service.responses.held? id = some r) :
    ∃ b, b.response = r ∧ CachedSinceGet m history call id b ∧
      (¬ (m.after history).service.store.Holds id r.sequence → b = .resolved id r) := by
  obtain ⟨later, now, text, before, rfl, hid, hnone⟩ := begun_of_seeking hcalls hd hseek
  have hbegun := distinct_after hd ((now, .get call text) :: before)
  have hvbegun := writesValid_after hv ((now, .get call text) :: before)
  rw [after_append] at hheld ⊢
  rcases held?_after hbegun hheld with ⟨b, hb, rfl⟩ | ⟨-, hstart⟩
  · exact ⟨b, rfl, ⟨later, now, text, before, rfl, hid, hb⟩, eq_resolved_of_not_holds hvbegun hb⟩
  · rw [TtlCache.held?, hnone] at hstart
    cases hstart

/-- An event that replaces the cached response of an id by an older one does so in one of the three
    ways. This is so after every history, however the pieces of its calls are interleaved, for all
    contents of store and cache at the start, and whether or not the response has expired. A piece
    of a call ends where the program awaits. -/
theorem regress_of_lowers (start : Service) (hd : start.responses.Distinct) (history : History)
    (now : Nat) (event : ServiceEvent) (id : String) (old new : Response)
    (h : Lowers ((ofService start).after history) now event id old new) :
    Regress (ofService start) history event id old new := by
  obtain ⟨hold, hnew, hlt⟩ := h
  have hvstart := writesValid_ofService start
  have hv := writesValid_after hvstart history
  rcases held?_step (distinct_after (m := ofService start) hd history) hnew with
    ⟨b, hb, rfl, rfl⟩ | ⟨-, hsame⟩
  · have hbrings := (caches?_eq_some.1 hb).1
    -- Publishes and the store never go below what the store holds.
    have hno : b.isResolved = false →
        ¬ ((ofService start).after history).service.store.Holds b.id old.sequence :=
      fun hlocal h => Int64.not_le.2 hlt ((sequence_of_brought hv now hbrings hlocal).1 _ h)
    cases b with
    | published id record =>
      exact .published record hbrings rfl (heldUnstored_of_not_holds hvstart hd hold (hno rfl))
    | resolved id response =>
      obtain ⟨call, full, rfl, -, -, hw⟩ := answered_of_resolved hbrings
      obtain ⟨b, hr, hsince, -⟩ := cachedSinceGet_of_held rfl hvstart hd (.inl hw) hold
      exact .resolved call _ b rfl hbrings hr hsince
    | restored id record =>
      obtain ⟨-, call, rfl, hw⟩ := read_of_restored hbrings
      obtain ⟨b, -, hsince, hfrom⟩ := cachedSinceGet_of_held rfl hvstart hd (.inr hw) hold
      obtain rfl := hfrom (hno rfl)
      exact .restored call _ record rfl hbrings rfl hsince
  · rw [hold] at hsame
    cases hsame
    exact absurd hlt Int64.lt_irrefl

/-- A get finds the sequence number 7 in the DHT, and a publish of 3 replaces it. -/
theorem regress_of_published_after_found :
    ∃ (start : Service) (history : History) (event : ServiceEvent) (id : String)
      (old new : Response), Lowers ((ofService start).after history) 3 event id old new ∧
        Regress (ofService start) history event id old new := by
  let start : Service := .fresh .standard (.memory .empty)
  let r := neutralRecord [] 3
  let newer := neutralRecord [1] 7
  let found : History :=
    [(1, .lookup 0 (.answers (.ok ⟨newer.response, true⟩))), (0, .get 0 r.id)]
  have hr : r.validate = .ok () := validate_neutralRecord (by decide) (by decide)
  have hpublish := step_publish_of_valid ((ofService start).after found) 2 1 hr (by decide +kernel)
  have h : Lowers ((ofService start).after ((2, .publish 1 r.id r) :: found)) 3
      (.store 1 .proceeds) r.id newer.response r.response := by
    rw [after, hpublish]
    exact ⟨by decide +kernel, by decide +kernel, by decide⟩
  exact ⟨start, _, _, _, _, _, h,
    regress_of_lowers start (TtlCache.distinct_empty _ _ _) _ 3 _ _ _ _ h⟩

/-- What an event brings replaces a live cached response that is newer. -/
structure LowersLive (start : Service) (history : History) (now : Nat) (event : ServiceEvent)
    (b : Brought) : Prop where
  distinct : start.responses.Distinct
  brings : ((ofService start).after history).brings? event = some b
  live : (((ofService start).after history).service.responses.find? b.id).any (·.isLive now) = true
  lowers : ∃ old, Lowers ((ofService start).after history) now event b.id old b.response

/-- A get finds 7 in the DHT, and then 3 is published. -/
theorem lowersLive_published :
    ∃ (start : Service) (history : History) (now : Nat) (event : ServiceEvent) (record : Record),
      LowersLive start history now event (.published record.id record) := by
  let start : Service := .fresh .standard (.memory .empty)
  let r := neutralRecord [] 3
  let newer := neutralRecord [1] 7
  let found : History :=
    [(1, .lookup 0 (.answers (.ok ⟨newer.response, true⟩))), (0, .get 0 r.id)]
  have hr : r.validate = .ok () := validate_neutralRecord (by decide) (by decide)
  have hpublish := step_publish_of_valid ((ofService start).after found) 2 1 hr (by decide +kernel)
  refine ⟨start, (2, .publish 1 r.id r) :: found, 3, .store 1 .proceeds, r,
    TtlCache.distinct_empty _ _ _, ?_, ?_, newer.response, ?_⟩
  · rw [after, hpublish]
    decide +kernel
  · rw [after, hpublish]
    decide +kernel
  · rw [after, hpublish]
    exact ⟨by decide +kernel, by decide +kernel, by decide⟩

/-- A get looks in the DHT, meanwhile 7 is published, and then the DHT answers 3. -/
theorem lowersLive_resolved :
    ∃ (start : Service) (history : History) (now : Nat) (event : ServiceEvent) (id : String)
      (response : Response), LowersLive start history now event (.resolved id response) := by
  let start : Service := .fresh .standard (.memory .empty)
  let r := neutralRecord [] 3
  let newer := neutralRecord [1] 7
  let begun : History := [(0, .get 0 r.id)]
  have hnewer : newer.validate = .ok () := validate_neutralRecord (by decide) (by decide)
  have hpublish := step_publish_of_valid ((ofService start).after begun) 1 1 hnewer
    (by decide +kernel)
  refine ⟨start, (2, .store 1 .proceeds) :: (1, .publish 1 newer.id newer) :: begun, 3,
    .lookup 0 (.answers (.ok ⟨r.response, true⟩)), r.id, r.response,
    TtlCache.distinct_empty _ _ _, ?_, ?_, newer.response, ?_⟩
  · rw [after, after, hpublish]
    decide +kernel
  · rw [after, after, hpublish]
    decide +kernel
  · rw [after, after, hpublish]
    exact ⟨by decide +kernel, by decide +kernel, by decide⟩

/-- The store holds 3 and two gets look in the DHT. One times out, the other finds 7, and then the
    first one reads the store. -/
theorem lowersLive_restored :
    ∃ (start : Service) (history : History) (now : Nat) (event : ServiceEvent) (record : Record),
      LowersLive start history now event (.restored record.id record) := by
  let r := neutralRecord [] 3
  let newer := neutralRecord [1] 7
  let stored : MemoryStore := { MemoryStore.empty with
    records := Table.empty.insert (Bytes.ofText r.id) r }
  exact ⟨.fresh .standard (.memory stored),
    [(3, .lookup 1 (.answers (.ok ⟨newer.response, true⟩))), (2, .lookup 0 .timesOut),
      (1, .get 1 r.id), (0, .get 0 r.id)],
    4, .store 0 .proceeds, r, TtlCache.distinct_empty _ _ _, by decide +kernel, by decide +kernel,
    newer.response, by decide +kernel, by decide +kernel, by decide⟩

/-- A live cached response can be replaced by an older one, in each of the three ways. -/
theorem live_cached_sequence_decreases :
    (∃ (start : Service) (history : History) (now : Nat) (event : ServiceEvent) (record : Record),
      LowersLive start history now event (.published record.id record)) ∧
      (∃ (start : Service) (history : History) (now : Nat) (event : ServiceEvent) (id : String)
        (response : Response), LowersLive start history now event (.resolved id response)) ∧
      ∃ (start : Service) (history : History) (now : Nat) (event : ServiceEvent) (record : Record),
        LowersLive start history now event (.restored record.id record) :=
  ⟨lowersLive_published, lowersLive_resolved, lowersLive_restored⟩

end SignedRecords
