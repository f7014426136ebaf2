import SignedRecords.Proofs.CacheAccounts
import SignedRecords.Proofs.ServiceRuns

/-!
# The marks of missing ids

Four kinds of events touch the marks of missing ids: a get that looks for one, a publish that has
written and takes one away, a get that has found nothing and sets one, and a purge.

Main statements: `remarks_step`, and from it `mem_negative_step`, `neat_step` and
`unmarked_of_published`.
-/

namespace SignedRecords

/-! ## 1. Live entries -/

namespace TtlCache

/-- Whether an id has an entry that is still to be read. -/
def Live (c : TtlCache) (id : String) (now : Nat) : Prop := (c.get id now).2.isSome = true

theorem live_iff {c : TtlCache} {id : String} {now : Nat} :
    c.Live id now ↔ ∃ e, c.find? id = some e ∧ e.isLive now = true := by
  unfold Live get
  constructor
  · intro h
    split at h
    · cases h
    · rename_i e he
      split at h
      · rename_i hlive
        exact ⟨e, he, hlive⟩
      · cases h
  · rintro ⟨e, he, hlive⟩
    simp only [he, if_pos hlive, Option.isSome_some]

/-- Reading a live entry changes nothing. -/
theorem get_of_live {c : TtlCache} {id : String} {now : Nat} (h : c.Live id now) :
    ∃ value, c.get id now = (c, some value) := by
  obtain ⟨e, he, hlive⟩ := live_iff.1 h
  exact ⟨e.value, by simp only [get, he, if_pos hlive]⟩

theorem get_of_not_live {c : TtlCache} {id : String} {now : Nat} (h : ¬ c.Live id now) :
    (c.get id now).2 = none := by
  unfold Live at h
  cases hvalue : (c.get id now).2 with
  | none => rfl
  | some value =>
    rw [hvalue] at h
    exact absurd rfl h

theorem live_of_mem {c : TtlCache} (hd : c.Distinct) {e : CacheEntry} (he : e ∈ c.entries)
    {now : Nat} (hlive : e.isLive now = true) : c.Live e.key now :=
  live_iff.2 ⟨e, find?_of_mem hd he, hlive⟩

/-- What is cached for an id is there and live. -/
theorem live_of_response {c : TtlCache} {id : String} {now : Nat} {r : Response}
    (h : (c.response id now).2 = .ok (some r)) : c.Live id now := by
  unfold response at h
  split at h
  · cases h
  · rename_i c' bs hget
    exact (congrArg (·.2.isSome) hget).trans rfl

end TtlCache

namespace Service

theorem live_of_cached {s : Service} {id : String} {now : Nat} {r : Response}
    (h : (s.cached id now).2 = some r) : s.responses.Live id now := by
  simp only [cached] at h
  split at h
  · rename_i response hresponse
    rw [h] at hresponse
    exact TtlCache.live_of_response hresponse
  · cases h

/-! ## 2. What an event does to the marks -/

@[simp] theorem cache_negative (s : Service) (id : String) (r : Response) (now : Nat) :
    (s.cache id r now).negative = s.negative := by
  unfold cache
  split
  · rfl
  · rfl

theorem publish_negative (s : Service) (now : Nat) (id : String) (record : Record) :
    (s.publish now id record).1.negative = s.negative := by
  unfold publish
  split
  · rfl
  · split
    · rfl
    · split
      · rfl
      · dsimp only
        split
        · rfl
        · rfl

/-- A publish that ends at once with success has found its response live. -/
theorem live_of_publish {s : Service} {now : Nat} {id : String} {record : Record}
    (h : (s.publish now id record).2 = .replies .published) :
    s.responses.Live record.id now := by
  unfold publish at h
  split at h
  · cases h
  · rename_i key id' hid
    split at h
    · cases h
    · rename_i hkey
      split at h
      · cases h
      · dsimp only at h
        split at h
        · rename_i hcached
          have hown : id' = record.id := by
            rw [readId_eq_ok hid, Decidable.not_not.1 hkey]
            rfl
          exact hown ▸ live_of_cached hcached
        · cases h

theorem get_negative (s : Service) (now : Nat) {text : String} {key : Octets 32}
    (hid : readId text = .ok (key, recordId key)) :
    (s.get now text).1.negative = (s.negative.get (recordId key) now).1 := by
  simp only [get, hid]
  split
  · rfl
  · split
    · rfl
    · rfl

/-- An id that is marked is refused, and nothing changes. -/
theorem get_of_marked {s : Service} {now : Nat} {text : String} {key : Octets 32}
    (hid : readId text = .ok (key, recordId key)) (h : s.negative.Live (recordId key) now) :
    s.get now text = (s, .replies (.failed (.rateLimited (recordId key)))) := by
  obtain ⟨value, hget⟩ := TtlCache.get_of_live h
  simp only [get, hid, isMissing, TtlCache.isMissing, hget, Option.isSome_some, if_true]

/-- An id that is not marked is not refused for that. -/
theorem get_of_unmarked {s : Service} {now : Nat} {text : String} {key : Octets 32}
    (hid : readId text = .ok (key, recordId key)) (h : ¬ s.negative.Live (recordId key) now)
    (id : String) : (s.get now text).2 ≠ .replies (.failed (.rateLimited id)) := by
  simp only [get, hid, isMissing, TtlCache.isMissing, TtlCache.get_of_not_live h,
    Option.isSome_none, Bool.false_eq_true, if_false]
  split
  · exact fun hreply => nomatch hreply
  · exact fun hreply => nomatch hreply

end Service

namespace ServiceMachine

/-- The id that an event finds nowhere, and marks as missing. -/
def marks? (m : ServiceMachine) : ServiceEvent → Option String
  | .store call turn =>
    match m.waiting? call with
    | some (.read id) =>
      match turn.run (m.service.store.read id) with
      | .ok none => some id
      | _ => none
    | _ => none
  | _ => none

/-- What an event does to the marks. -/
inductive Remarks (m : ServiceMachine) (now : Nat) : ServiceEvent → TtlCache → Prop where
  | keeps {event : ServiceEvent}
      (hno : ∀ id record, m.brings? event ≠ some (.published id record)) :
      Remarks m now event m.service.negative
  /-- A get looks whether its id is marked. -/
  | looks {call : Nat} {text : String} {key : Octets 32}
      (hid : readId text = .ok (key, recordId key)) :
      Remarks m now (.get call text) (m.service.negative.get (recordId key) now).1
  /-- The store has taken the record of a publish. -/
  | clears {event : ServiceEvent} {id : String} {record : Record}
      (hb : m.brings? event = some (.published id record)) :
      Remarks m now event (m.service.negative.remove id)
  /-- A get has found nothing. -/
  | marks {event : ServiceEvent} {id : String} (hm : m.marks? event = some id) :
      Remarks m now event (m.service.markMissing id now).negative
  | purges : Remarks m now .purge (m.service.negative.purge now).1

@[simp] theorem follow_service (m : ServiceMachine) (call : Nat) (s : Service) (next : CallStep) :
    (m.follow call s next).1.service = s := by
  cases next <;> rfl

theorem replies_follow {m : ServiceMachine} {call : Nat} {s : Service} {next : CallStep} {c : Nat}
    {reply : Reply} :
    .replies c reply ∈ (m.follow call s next).2 ↔ c = call ∧ next = .replies reply :=
  m.replies_followPut call (s, next, none) c reply

/-- A mark is set where the store has been asked, and has no record. -/
theorem marks?_eq_some {m : ServiceMachine} {event : ServiceEvent} {id : String} :
    m.marks? event = some id ↔
      ∃ call turn, event = .store call turn ∧ m.waiting? call = some (.read id) ∧
        turn.run (m.service.store.read id) = .ok none := by
  constructor
  · intro h
    unfold marks? at h
    split at h
    · rename_i call turn
      split at h
      · rename_i hw
        split at h
        · rename_i hrun
          cases h
          exact ⟨call, turn, rfl, hw, hrun⟩
        · cases h
      · cases h
    · cases h
  · rintro ⟨call, turn, rfl, hw, hrun⟩
    simp only [marks?, hw, hrun]

/-- An event that sets a mark brings nothing, and the call that has looked for the id ends. -/
theorem step_of_marks {m : ServiceMachine} (now : Nat) {event : ServiceEvent} {id : String}
    (h : m.marks? event = some id) :
    m.brings? event = none ∧
      (m.step now event).1.service.negative = (m.service.markMissing id now).negative ∧
      ∃ call, m.waiting? call = some (.read id) ∧ (m.step now event).1.waiting? call = none := by
  obtain ⟨call, turn, rfl, hw, hrun⟩ := marks?_eq_some.1 h
  have hpiece : m.service.readBack now id turn =
      (m.service.markMissing id now, .replies .notFound, none) := by
    simp only [Service.readBack, hrun]
  have hstep : m.step now (.store call turn) =
      m.followPut call (m.service.markMissing id now, .replies .notFound, none) := by
    simp only [step, hw, hpiece]
  rw [hstep]
  refine ⟨by simp only [brings?, hw, hrun], by rw [followPut_service], call, hw, ?_⟩
  rw [waiting?_followPut, if_pos rfl]
  rfl

theorem not_published_of_none {m : ServiceMachine} {event : ServiceEvent}
    (h : m.brings? event = none) (id : String) (record : Record) :
    m.brings? event ≠ some (.published id record) := by
  rw [h]
  exact (Option.some_ne_none _).symm

/-- What the store answers to a call. -/
theorem remarks_store (m : ServiceMachine) (now call : Nat) (turn : StoreTurn) :
    Remarks m now (.store call turn) (m.step now (.store call turn)).1.service.negative := by
  cases hw : m.waiting? call with
  | none =>
    simp only [step, hw]
    exact .keeps (not_published_of_none (by simp only [brings?, hw]))
  | some w =>
    cases w with
    | write id record =>
      simp only [step, hw, followPut_service, Service.written]
      split
      · rename_i e hrun
        exact .keeps (not_published_of_none (by simp only [brings?, hw, hrun]))
      · rename_i store hrun
        have hb : m.brings? (.store call turn) = some (.published id record) := by
          simp only [brings?, hw, hrun]
        simp only [Service.cache_negative]
        exact .clears hb
    | lookup id =>
      simp only [step, hw]
      exact .keeps (not_published_of_none (by simp only [brings?, hw]))
    | read id =>
      simp only [step, hw, followPut_service, Service.readBack]
      split
      · rename_i e hrun
        exact .keeps (not_published_of_none (by simp only [brings?, hw, hrun]))
      · rename_i hrun
        exact .marks (by simp only [marks?, hw, hrun])
      · rename_i record hrun
        simp only [Service.cache_negative]
        exact .keeps fun _ _ h => by simp only [brings?, hw, hrun] at h; cases h

/-- The end of a lookup leaves the marks. -/
theorem negative_lookup (m : ServiceMachine) (now call : Nat) (turn : LookupTurn) :
    (m.step now (.lookup call turn)).1.service.negative = m.service.negative := by
  simp only [step]
  split
  · rw [follow_service]
    unfold Service.lookedUp
    split
    · split
      · exact Service.cache_negative _ _ _ _
      · rfl
    · rfl
  · rfl

/-- The end of an announcement leaves the marks. -/
theorem negative_put (m : ServiceMachine) (now number : Nat) (how : PutEnd) :
    (m.step now (.put number how)).1.service.negative = m.service.negative := by
  simp only [step]
  split
  · cases how <;> rfl
  · rfl

theorem remarks_step (m : ServiceMachine) (now : Nat) (event : ServiceEvent) :
    Remarks m now event (m.step now event).1.service.negative := by
  cases event with
  | publish call id record =>
    simp only [step, follow_service, Service.publish_negative]
    exact .keeps (not_published_of_none rfl)
  | get call text =>
    simp only [step, follow_service]
    cases hid : readId text with
    | error e =>
      simp only [Service.get, hid]
      exact .keeps (not_published_of_none rfl)
    | ok named =>
      obtain ⟨key, id⟩ := named
      obtain rfl := readId_eq_ok hid
      rw [Service.get_negative _ _ hid]
      exact .looks hid
  | store call turn => exact m.remarks_store now call turn
  | lookup call turn =>
    rw [m.negative_lookup now call turn]
    refine .keeps fun id record h => ?_
    obtain ⟨c, next, hpiece⟩ := piece_of_brings 0 h
    cases hpiece
  | put number how =>
    rw [m.negative_put now number how]
    exact .keeps (not_published_of_none rfl)
  | purge => exact .purges

/-- The marks after an event were there before, or the event has set them. -/
theorem mem_negative_step {m : ServiceMachine} {now : Nat} {event : ServiceEvent} {e : CacheEntry}
    (h : e ∈ (m.step now event).1.service.negative.entries) :
    e ∈ m.service.negative.entries ∨ m.marks? event = some e.key := by
  have hr := m.remarks_step now event
  generalize (m.step now event).1.service.negative = c at h hr
  cases hr with
  | keeps => exact .inl h
  | looks => exact .inl ((TtlCache.get_sublist _ _ _).subset h)
  | clears => exact .inl ((TtlCache.remove_sublist _ _).subset h)
  | marks hm =>
    unfold Service.markMissing at h
    split at h
    · rename_i c hset
      rcases List.mem_append.1 ((TtlCache.sublist_of_set hset).subset h) with h | h
      · exact .inl ((TtlCache.remove_sublist _ _).subset h)
      · rw [List.mem_singleton.1 h]
        exact .inr hm
    · exact .inl h
  | purges => exact .inl ((TtlCache.purge_sublist _ _).subset h)

theorem neat_step {m : ServiceMachine} (h : m.service.negative.Neat) (now : Nat)
    (event : ServiceEvent) : (m.step now event).1.service.negative.Neat := by
  have hr := m.remarks_step now event
  generalize (m.step now event).1.service.negative = c at hr
  cases hr with
  | keeps => exact h
  | looks =>
    rw [h.get_eq]
    exact h.keep _
  | clears =>
    rw [h.remove_eq]
    exact h.keep _
  | marks hm =>
    unfold Service.markMissing
    split
    · rename_i c hset
      exact (h.writes hset).neat
    · exact h
  | purges =>
    rw [h.purge_eq]
    exact h.keep _

/-- Where a publish has written, its id is not marked. -/
theorem unmarked_of_published {m : ServiceMachine} (h : m.service.negative.Neat) {now : Nat}
    {event : ServiceEvent} {id : String} {record : Record}
    (hb : m.brings? event = some (.published id record)) :
    ∀ e ∈ (m.step now event).1.service.negative.entries, e.key ≠ id := by
  have hr := m.remarks_step now event
  generalize (m.step now event).1.service.negative = c at hr
  cases hr with
  | keeps hno => exact absurd hb (hno id record)
  | looks => cases hb
  | clears hb' =>
    rw [hb] at hb'
    cases hb'
    rw [h.remove_eq]
    intro e he
    exact bne_iff_ne.1 (List.mem_filter.1 he).2
  | marks hm =>
    rw [(step_of_marks 0 hm).1] at hb
    cases hb
  | purges => cases hb

end ServiceMachine

end SignedRecords
