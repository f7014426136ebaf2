import SignedRecords.Proofs.NeutralKey
import SignedRecords.Proofs.ServiceRuns

/-!
# What a get finds after a publish

Once the store has taken a record, neither it nor a later publish gives an older one. The DHT may:
it is asked before the store, and what it answers is not compared with what is stored. And a
response that is too large for the cache leaves an older one there.

Main statement: `found_after_write`.
-/

namespace SignedRecords

open ServiceMachine

/-- When the store holds a record of an id, a get of the id finds none that is older, except what
    the DHT has answered since, and what was cached already. -/
theorem found_since_held {m : ServiceMachine} (hv : m.WritesValid)
    (hd : m.service.responses.Distinct) {id : String} {n : Sequence}
    (hn : m.service.store.Holds id n) {later : History} {now call : Nat} {event : ServiceEvent}
    {response : Response} (hid : (m.after later).seeks? event = some id)
    (hfound : .replies call (.found response) ∈ ((m.after later).step now event).2) :
    n ≤ response.sequence ∨ .resolved id response ∈ m.broughtIn ((now, event) :: later) ∨
      m.service.responses.held? id = some response := by
  have hlater := writesValid_after hv later
  rcases found_of_seeks hid hfound with hheld | hresolved | ⟨record, hrestored, rfl⟩
  · rcases held?_after hd hheld with ⟨b, hb, rfl⟩ | ⟨-, hstart⟩
    · obtain ⟨hmem, rfl⟩ := lastCached?_eq_some hb
      have hbrought := mem_broughtIn_of_mem_cachedIn hmem
      cases hres : b.isResolved with
      | false => exact .inl ((sequence_of_broughtIn hv hbrought hres).1 n hn)
      | true =>
        cases b with
        | resolved id response => exact .inr (.inl (List.mem_append_right _ hbrought))
        | published id record => cases hres
        | restored id record => cases hres
    · exact .inr (.inr hstart)
  · exact .inr (.inl (List.mem_append_left _ (Option.mem_toList.2 hresolved)))
  · have hnow := (holds_after hv later id n).2 (.inl hn)
    exact .inl ((sequence_of_brought hlater now hrestored rfl).1 n hnow)

/-- What is cached after a write is the response of the record, unless that does not fit. -/
theorem held?_of_published {m : ServiceMachine} (hd : m.service.responses.Distinct) {now : Nat}
    {event : ServiceEvent} {id : String} {r : Record} {response : Response}
    (hb : m.brings? event = some (.published id r))
    (h : (m.step now event).1.service.responses.held? id = some response) :
    response = r.response ∨ (¬ m.service.responses.Fits id r.response.toBytes ∧
      m.service.responses.held? id = some response) := by
  rcases held?_step hd h with ⟨b, hc, -, rfl⟩ | ⟨hno, hheld⟩
  · have heq : some b = some (.published id r) := (caches?_eq_some.1 hc).1.symm.trans hb
    cases heq
    exact .inl rfl
  · refine .inr ⟨fun hfits => ?_, hheld⟩
    exact hno _ (caches?_eq_some.2 ⟨hb, hfits⟩) rfl

/-- A publish of a record succeeds by writing it, and a later get of its id finds a response. -/
structure FoundAfterWrite (m : ServiceMachine) (write : Nat × ServiceEvent) (later : History)
    (find : Nat × ServiceEvent) (r : Record) (response : Response) : Prop where
  publishes : m.publishes? write.2 = some r
  published : ∃ call turn, write.2 = .store call turn ∧
    .replies call .published ∈ (m.step write.1 write.2).2
  seeks : (m.after (later ++ [write])).seeks? find.2 = some r.id
  found : ∃ call, .replies call (.found response) ∈
    ((m.after (later ++ [write])).step find.1 find.2).2

/-- A get that finds a response after a publish of the same id has written finds none that is
    older, except what the DHT has answered since, and, where the cache refused the response of the
    publish, what was cached before. This is so for every history before the write and since, in
    which calls take turns where the program awaits, and for all contents of store and cache at the
    start. -/
theorem found_after_write (start : Service) (hd : start.responses.Distinct)
    (before : History) (write : Nat × ServiceEvent) (later : History) (find : Nat × ServiceEvent)
    (r : Record) (response : Response)
    (h : FoundAfterWrite ((ofService start).after before) write later find r response) :
    r.sequence ≤ response.sequence ∨
      .resolved r.id response ∈
        ((ofService start).after (write :: before)).broughtIn (find :: later) ∨
      (¬ ((ofService start).after before).service.responses.Fits r.id r.response.toBytes ∧
        ((ofService start).after before).service.responses.held? r.id = some response) := by
  obtain ⟨hpublishes, ⟨writer, turn, hevent, hok⟩, hseeks, reader, hfound⟩ := h
  obtain ⟨t, event⟩ := write
  obtain rfl : event = .store writer turn := hevent
  rw [after_append] at hseeks hfound
  have hv := writesValid_after (writesValid_ofService start) before
  have hdist := distinct_after (m := ofService start) hd before
  obtain ⟨_, _, h, -⟩ | ⟨id, r', -, hw, hbrings⟩ := published_of_step hok
  · cases h
  · have hsame : r' = r := by simpa [publishes?, hw] using hpublishes
    subst hsame
    obtain ⟨rfl, -⟩ := valid_of_published hv hbrings
    have hholds := (holds_step hv t (.store writer turn) r'.id r'.sequence).2
      (.inr ⟨r', hbrings, Int64.le_refl _⟩)
    rcases found_since_held (writesValid_step hv t _) (distinct_step hdist t _) hholds hseeks hfound
      with hle | hresolved | hheld
    · exact .inl hle
    · exact .inr (.inl hresolved)
    · rcases held?_of_published hdist hbrings hheld with rfl | hrefused
      · exact .inl (Int64.le_refl _)
      · exact .inr (.inr hrefused)

/-- A published record expires in the cache, the DHT times out, and the record is found in the
    store. -/
theorem found_after_write_in_store :
    ∃ (start : Service) (before : History) (write : Nat × ServiceEvent) (later : History)
      (find : Nat × ServiceEvent) (r : Record),
      FoundAfterWrite ((ofService start).after before) write later find r r.response ∧
        (r.sequence ≤ r.response.sequence ∨
          .resolved r.id r.response ∈
            ((ofService start).after (write :: before)).broughtIn (find :: later) ∨
          (¬ ((ofService start).after before).service.responses.Fits r.id r.response.toBytes ∧
            ((ofService start).after before).service.responses.held? r.id = some r.response)) := by
  let start : Service := .fresh .standard (.memory .empty)
  let r := neutralRecord [1] 5
  let before : History := [(0, .publish 0 r.id r)]
  let later : History := [(700010, .lookup 1 .timesOut), (700000, .get 1 r.id)]
  have hr : r.validate = .ok () := validate_neutralRecord (by decide) (by decide)
  have hbefore := step_publish_of_valid (ofService start) 0 0 hr (by decide +kernel)
  have h : FoundAfterWrite ((ofService start).after before) (1, .store 0 .proceeds) later
      (700011, .store 1 .proceeds) r r.response := by
    rw [after, after, hbefore]
    exact ⟨by decide +kernel, ⟨0, .proceeds, rfl, by decide +kernel⟩, by decide +kernel,
      ⟨1, by decide +kernel⟩⟩
  exact ⟨start, before, _, later, _, r, h,
    found_after_write start (TtlCache.distinct_empty _ _ _) before _ later _ r r.response h⟩

/-- A get finds an older response after a write. -/
def FoundOlder (start : Service) (before : History) (write : Nat × ServiceEvent) (later : History)
    (find : Nat × ServiceEvent) : Prop :=
  start.responses.Distinct ∧ ∃ r response,
    FoundAfterWrite ((ofService start).after before) write later find r response ∧
      response.sequence < r.sequence

/-- The record expires in the cache, and the DHT answers an older one. -/
theorem foundOlder_resolved :
    ∃ (start : Service) (before : History) (write : Nat × ServiceEvent) (later : History)
      (find : Nat × ServiceEvent), FoundOlder start before write later find := by
  let start : Service := .fresh .standard (.memory .empty)
  let r := neutralRecord [1] 5
  let old := neutralRecord [2] 4
  have hr : r.validate = .ok () := validate_neutralRecord (by decide) (by decide)
  have hbefore := step_publish_of_valid (ofService start) 0 0 hr (by decide +kernel)
  refine ⟨start, [(0, .publish 0 r.id r)], (1, .store 0 .proceeds), [(700000, .get 1 r.id)],
    (700010, .lookup 1 (.answers (.ok ⟨old.response, true⟩))), TtlCache.distinct_empty _ _ _,
    r, old.response, ?_, by decide⟩
  rw [after, after, hbefore]
  exact ⟨by decide +kernel, ⟨0, .proceeds, rfl, by decide +kernel⟩, by decide +kernel,
    ⟨1, by decide +kernel⟩⟩

/-- The record is too large for the cache, which keeps an older one, and the DHT answers nothing. -/
theorem foundOlder_refused :
    ∃ (start : Service) (before : History) (write : Nat × ServiceEvent) (later : History)
      (find : Nat × ServiceEvent), FoundOlder start before write later find ∧
        ∀ b ∈ ((ofService start).after before).broughtIn (find :: later ++ [write]),
          b.isResolved = false := by
  let start : Service := .fresh { ServiceConfig.standard with cacheSize := 200 } (.memory .empty)
  let old := neutralRecord [] 4
  let r := neutralRecord (List.replicate 100 1) 5
  have hold : old.validate = .ok () := validate_neutralRecord (by decide) (by decide)
  have hr : r.validate = .ok () := validate_neutralRecord (by decide) (by decide)
  have hfirst := step_publish_of_valid (ofService start) 0 0 hold (by decide +kernel)
  let stored := (((ofService start).follow 0 ((ofService start).service.cached old.id 0).1
    (.waits (.write old.id old))).1.step 1 (.store 0 .proceeds)).1
  have hsecond := step_publish_of_valid stored 2 1 hr (by decide +kernel)
  have hbefore : (ofService start).after
      [(2, .publish 1 r.id r), (1, .store 0 .proceeds), (0, .publish 0 old.id old)] =
        (stored.follow 1 (stored.service.cached r.id 2).1 (.waits (.write r.id r))).1 := by
    rw [after, after, after, after, hfirst]
    exact congrArg Prod.fst hsecond
  refine ⟨start, [(2, .publish 1 r.id r), (1, .store 0 .proceeds), (0, .publish 0 old.id old)],
    (3, .store 1 .proceeds), [], (4, .get 2 r.id),
    ⟨TtlCache.distinct_empty _ _ _, r, old.response, ?_, by decide⟩, ?_⟩
  · rw [hbefore]
    exact ⟨by decide +kernel, ⟨1, .proceeds, rfl, by decide +kernel⟩, by decide +kernel,
      ⟨2, by decide +kernel⟩⟩
  · rw [hbefore]
    decide +kernel

/-- An older response can be found after a write: what the DHT answers, and, also without the DHT,
    what was cached before a record that is too large for the cache. -/
theorem found_older_after_write :
    (∃ (start : Service) (before : History) (write : Nat × ServiceEvent) (later : History)
      (find : Nat × ServiceEvent), FoundOlder start before write later find) ∧
      ∃ (start : Service) (before : History) (write : Nat × ServiceEvent) (later : History)
        (find : Nat × ServiceEvent), FoundOlder start before write later find ∧
          ∀ b ∈ ((ofService start).after before).broughtIn (find :: later ++ [write]),
            b.isResolved = false :=
  ⟨foundOlder_resolved, foundOlder_refused⟩

end SignedRecords
