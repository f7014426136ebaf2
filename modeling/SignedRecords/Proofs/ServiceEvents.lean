import SignedRecords.Proofs.ServicePieces
import SignedRecords.Proofs.Stores
import SignedRecords.Service.Machine

/-!
# What one event does to a service with its calls

An event brings at most one response for the cache: that of a record which the store has just
taken, that of an item which the DHT has answered, or that of a record which the store has
answered. The store changes only with the first, and a call begins to wait only in few pieces.

Main statements: `step_cases`, and from it `step_kept`, `step_cached` and `step_store` for what is
kept, `waiting?_step` for the calls, `published_of_step` and `found_of_step` for what is replied.
-/

namespace SignedRecords

/-! ## 1. What an event brings -/

/-- A response on its way into the cache. -/
inductive Brought where
  /-- The one of a record that the store has just taken. -/
  | published (id : String) (record : Record)
  /-- The one of an item that the DHT has answered. -/
  | resolved (id : String) (response : Response)
  /-- The one of a record that the store has answered. -/
  | restored (id : String) (record : Record)
  deriving DecidableEq

namespace Brought

/-- The id under which it is cached. -/
def id : Brought → String
  | published id _ => id
  | resolved id _ => id
  | restored id _ => id

/-- What is cached. -/
def response : Brought → Response
  | published _ record => record.response
  | resolved _ response => response
  | restored _ record => record.response

/-- Whether it came from the DHT. -/
def isResolved : Brought → Bool
  | resolved _ _ => true
  | _ => false

end Brought

namespace CallStep

/-- What a call waits for after a piece. -/
def waiting? : CallStep → Option Waiting
  | replies _ => none
  | waits for' => some for'

end CallStep

namespace ServiceMachine

/-- What an event brings for the cache. -/
def brings? (m : ServiceMachine) : ServiceEvent → Option Brought
  | .store call turn =>
    match m.waiting? call with
    | some (.write id record) =>
      match turn.run (m.service.store.write record) with
      | .ok _ => some (.published id record)
      | .error _ => none
    | some (.read id) =>
      match turn.run (m.service.store.read id) with
      | .ok (some record) => some (.restored id record)
      | _ => none
    | _ => none
  | .lookup call (.answers (.ok full)) =>
    match m.waiting? call with
    | some (.lookup id) => if full.isMutable then some (.resolved id full.response) else none
    | _ => none
  | _ => none

/-! ## 2. Going on with a call -/

@[simp] theorem followPut_service (m : ServiceMachine) (call : Nat)
    (piece : Service × CallStep × Option Record) :
    (m.followPut call piece).1.service = piece.1 := by
  obtain ⟨s, next, put⟩ := piece
  cases next <;> cases put <;> rfl

/-- The calls other than one, looked up. -/
theorem find?_others (calls : List (Nat × Waiting)) (call c : Nat) :
    (calls.filter (·.1 != call)).find? (·.1 == c) =
      if c = call then none else calls.find? (·.1 == c) := by
  by_cases hc : c = call
  · subst hc
    rw [if_pos rfl, List.find?_eq_none]
    intro x hx hkey
    have hne : ¬ x.1 = c := by simpa using (List.mem_filter.1 hx).2
    exact hne (by simpa using hkey)
  · rw [if_neg hc, List.find?_filter]
    congr 1
    funext x
    by_cases hx : x.1 = c
    · simp [hx, hc]
    · simp [hx]

/-- Only the call of the piece waits for something else than before. -/
theorem waiting?_followPut (m : ServiceMachine) (call : Nat)
    (piece : Service × CallStep × Option Record) (c : Nat) :
    (m.followPut call piece).1.waiting? c =
      if c = call then piece.2.1.waiting? else m.waiting? c := by
  obtain ⟨s, next, put⟩ := piece
  -- A put in the background leaves the calls alone.
  have hcalls : (m.followPut call (s, next, put)).1.calls = (m.follow call s next).1.calls := by
    cases put <;> rfl
  have hothers := find?_others m.calls call c
  rw [waiting?, hcalls]
  cases next with
  | replies reply =>
    simp only [follow, hothers, CallStep.waiting?, waiting?]
    split <;> rfl
  | waits for' =>
    simp only [follow, CallStep.waiting?, waiting?]
    by_cases hc : c = call
    · rw [if_pos hc, hc, List.find?_cons_of_pos (by simp)]
      rfl
    · rw [if_neg hc, List.find?_cons_of_neg (by simpa using fun e => hc e.symm), hothers,
        if_neg hc]

/-- Only the call of the piece is replied to, when the piece ends it. -/
theorem replies_followPut (m : ServiceMachine) (call : Nat)
    (piece : Service × CallStep × Option Record) (c : Nat) (reply : Reply) :
    .replies c reply ∈ (m.followPut call piece).2 ↔
      c = call ∧ piece.2.1 = .replies reply := by
  obtain ⟨s, next, put⟩ := piece
  cases next <;> cases put <;> simp [followPut, follow, eq_comm]

/-! ## 3. The piece that an event runs -/

/-- A piece of a call: the event that runs it, the call, what it brings, the service after it, and
    how the call goes on. -/
inductive Piece (m : ServiceMachine) (now : Nat) :
    ServiceEvent → Nat → Option Brought → Service → CallStep → Prop where
  /-- The call ends without success and without a response. -/
  | fails {event : ServiceEvent} {call : Nat} {s : Service} {reply : Reply}
      (hkept : m.service.Kept s) (hreply : reply = .notFound ∨ ∃ e, reply = .failed e) :
      Piece m now event call none s (.replies reply)
  /-- A publish finds the response of its record in the cache. -/
  | skips {call : Nat} {id : String} {record : Record} {s : Service}
      (hkept : m.service.Kept s) (hvalid : record.validate = .ok ())
      (hid : readId id = .ok (record.key, record.id))
      (hheld : m.service.responses.held? record.id = some record.response) :
      Piece m now (.publish call id record) call none s (.replies .published)
  /-- A publish begins to write. -/
  | writes {call : Nat} {id : String} {record : Record} {s : Service}
      (hkept : m.service.Kept s) (hvalid : record.validate = .ok ())
      (hid : readId id = .ok (record.key, record.id)) :
      Piece m now (.publish call id record) call none s (.waits (.write record.id record))
  /-- The store has taken the record of a publish. -/
  | written {call : Nat} {id : String} {record : Record} {s : Service}
      (hw : m.waiting? call = some (.write id record))
      (hstore : m.service.store.write record = .ok s.store)
      (hcache : s.responses = (m.service.cache id record.response now).responses) :
      Piece m now (.store call .proceeds) call (some (.published id record)) s
        (.replies .published)
  /-- A get finds a response in the cache. -/
  | hits {call : Nat} {text : String} {key : Octets 32} {r : Response} {s : Service}
      (hkept : m.service.Kept s) (hid : readId text = .ok (key, recordId key))
      (hheld : m.service.responses.held? (recordId key) = some r) :
      Piece m now (.get call text) call none s (.replies (.found r))
  /-- A get finds none, and looks in the DHT. -/
  | misses {call : Nat} {text : String} {key : Octets 32} {s : Service}
      (hkept : m.service.Kept s) (hid : readId text = .ok (key, recordId key))
      (hnone : m.service.responses.Distinct → s.responses.find? (recordId key) = none) :
      Piece m now (.get call text) call none s (.waits (.lookup (recordId key)))
  /-- The DHT has answered an item with an owner. -/
  | resolves {call : Nat} {id : String} {full : FullGet} {s : Service}
      (hw : m.waiting? call = some (.lookup id)) (hm : full.isMutable = true)
      (hstore : s.store = m.service.store)
      (hcache : s.responses = (m.service.cache id full.response now).responses) :
      Piece m now (.lookup call (.answers (.ok full))) call (some (.resolved id full.response)) s
        (.replies (.found full.response))
  /-- The DHT has not, and the store is asked. -/
  | turns {call : Nat} {turn : LookupTurn} {id : String} {s : Service}
      (hw : m.waiting? call = some (.lookup id)) (hkept : m.service.Kept s) :
      Piece m now (.lookup call turn) call none s (.waits (.read id))
  /-- The store has answered a record. -/
  | restores {call : Nat} {id : String} {record : Record} {s : Service}
      (hw : m.waiting? call = some (.read id))
      (hread : m.service.store.read id = .ok (some record)) (hstore : s.store = m.service.store)
      (hcache : s.responses = (m.service.cache id record.response now).responses) :
      Piece m now (.store call .proceeds) call (some (.restored id record)) s
        (.replies (.found record.response))

theorem piece_publish (m : ServiceMachine) (now call : Nat) (id : String) (record : Record) :
    Piece m now (.publish call id record) call none (m.service.publish now id record).1
      (m.service.publish now id record).2 := by
  have hkept := m.service.publish_kept now id record
  generalize hnext : (m.service.publish now id record).2 = next
  obtain ⟨e, rfl⟩ | ⟨hvalid, hid, ⟨rfl, hheld⟩ | rfl⟩ := Service.publish_next hnext
  · exact .fails hkept (.inr ⟨e, rfl⟩)
  · exact .skips hkept hvalid hid hheld
  · exact .writes hkept hvalid hid

theorem piece_get (m : ServiceMachine) (now call : Nat) (text : String) :
    Piece m now (.get call text) call none (m.service.get now text).1
      (m.service.get now text).2 := by
  have hkept := m.service.get_kept now text
  generalize hnext : (m.service.get now text).2 = next
  obtain ⟨e, rfl⟩ | ⟨key, hid, ⟨r, rfl, hheld⟩ | ⟨rfl, hnone⟩⟩ := Service.get_next hnext
  · exact .fails hkept (.inr ⟨e, rfl⟩)
  · exact .hits hkept hid hheld
  · exact .misses hkept hid hnone

theorem piece_written {m : ServiceMachine} {call : Nat} {id : String} {record : Record}
    (hw : m.waiting? call = some (.write id record)) (now : Nat) (turn : StoreTurn) :
    Piece m now (.store call turn) call (m.brings? (.store call turn))
      (m.service.written now id record turn).1 (m.service.written now id record turn).2.1 := by
  obtain ⟨e, hrun, heq⟩ | ⟨store, hrun, hstore, hcache, hnext⟩ :=
    m.service.written_cases now id record turn
  · simp only [brings?, hw, hrun, heq]
    exact .fails (.rfl _) (.inr ⟨_, rfl⟩)
  · obtain ⟨rfl, hwrite⟩ := StoreTurn.run_eq_ok hrun
    simp only [brings?, hw, hrun, hnext]
    exact .written hw (hstore ▸ hwrite) hcache

theorem piece_readBack {m : ServiceMachine} {call : Nat} {id : String}
    (hw : m.waiting? call = some (.read id)) (now : Nat) (turn : StoreTurn) :
    Piece m now (.store call turn) call (m.brings? (.store call turn))
      (m.service.readBack now id turn).1 (m.service.readBack now id turn).2.1 := by
  obtain ⟨hstore, ⟨record, hrun, hcache, hnext⟩ | ⟨hno, hresponses, hnext⟩⟩ :=
    m.service.readBack_cases now id turn
  · obtain ⟨rfl, hread⟩ := StoreTurn.run_eq_ok hrun
    simp only [brings?, hw, hrun, hnext]
    exact .restores hw hread hstore hcache
  · have hbrings : m.brings? (.store call turn) = none := by
      simp only [brings?, hw]
    have hkept : m.service.Kept (m.service.readBack now id turn).1 :=
      ⟨hstore, hresponses ▸ List.Sublist.refl _⟩
    rw [hbrings]
    obtain ⟨e, hnext⟩ | hnext := hnext
    · rw [hnext]
      exact .fails hkept (.inr ⟨e, rfl⟩)
    · rw [hnext]
      exact .fails hkept (.inl rfl)

theorem piece_lookedUp {m : ServiceMachine} {call : Nat} {id : String}
    (hw : m.waiting? call = some (.lookup id)) (now : Nat) (turn : LookupTurn) :
    Piece m now (.lookup call turn) call (m.brings? (.lookup call turn))
      (m.service.lookedUp now id turn).1 (m.service.lookedUp now id turn).2 := by
  obtain ⟨full, rfl, hm, heq⟩ | ⟨hno, heq⟩ := m.service.lookedUp_cases now id turn
  · simp only [brings?, hw, hm, heq]
    exact .resolves hw hm (Service.cache_store _ _ _ _) rfl
  · have hbrings : m.brings? (.lookup call turn) = none := by
      unfold brings?
      split
      · contradiction
      · rename_i full hevent
        cases hevent
        simp [hw, hno full rfl]
      · rfl
    rw [hbrings, heq]
    exact .turns hw (.rfl _)

/-! ## 4. Events -/

/-- An event that has run a piece. -/
structure Ran (m : ServiceMachine) (now : Nat) (event : ServiceEvent) (call : Nat)
    (next : CallStep) : Prop where
  piece : Piece m now event call (m.brings? event) (m.step now event).1.service next
  waiting? : ∀ c, (m.step now event).1.waiting? c =
    if c = call then next.waiting? else m.waiting? c
  replies : ∀ c reply, .replies c reply ∈ (m.step now event).2 ↔
    c = call ∧ next = .replies reply

/-- An event that has run none: nothing is brought or replied, and entries were at most swept out
    of the caches. -/
structure Idle (m : ServiceMachine) (now : Nat) (event : ServiceEvent) : Prop where
  brings : m.brings? event = none
  kept : m.service.Kept (m.step now event).1.service
  waiting? : ∀ c, (m.step now event).1.waiting? c = m.waiting? c
  replies : ∀ c reply, .replies c reply ∉ (m.step now event).2

theorem Ran.of_followPut {m : ServiceMachine} {now : Nat} {event : ServiceEvent} {call : Nat}
    (piece : Service × CallStep × Option Record)
    (hs : m.step now event = m.followPut call piece)
    (hp : Piece m now event call (m.brings? event) piece.1 piece.2.1) :
    Ran m now event call piece.2.1 := by
  refine ⟨?_, ?_, ?_⟩
  · rw [hs, followPut_service]
    exact hp
  · rw [hs]
    exact m.waiting?_followPut call piece
  · rw [hs]
    exact m.replies_followPut call piece

theorem Idle.of_same {m : ServiceMachine} {now : Nat} {event : ServiceEvent}
    (hb : m.brings? event = none) (hs : m.step now event = (m, [])) : Idle m now event := by
  refine ⟨hb, ?_, ?_, ?_⟩
  · rw [hs]
    exact .rfl _
  · rw [hs]
    exact fun c => rfl
  · rw [hs]
    exact fun c reply => List.not_mem_nil

/-- Every event runs a piece of a call or is idle. -/
theorem step_cases (m : ServiceMachine) (now : Nat) (event : ServiceEvent) :
    (∃ call next, Ran m now event call next) ∨ Idle m now event := by
  cases event with
  | publish call id record =>
    let piece := m.service.publish now id record
    exact .inl ⟨call, _, .of_followPut (piece.1, piece.2, none) rfl
      (piece_publish m now call id record)⟩
  | get call text =>
    let piece := m.service.get now text
    exact .inl ⟨call, _, .of_followPut (piece.1, piece.2, none) rfl (piece_get m now call text)⟩
  | store call turn =>
    cases hw : m.waiting? call with
    | none => exact .inr (.of_same (by simp only [brings?, hw]) (by simp only [step, hw]))
    | some w =>
      cases w with
      | write id record =>
        exact .inl ⟨call, _, .of_followPut (m.service.written now id record turn)
          (by simp only [step, hw]) (piece_written hw now turn)⟩
      | lookup id => exact .inr (.of_same (by simp only [brings?, hw]) (by simp only [step, hw]))
      | read id =>
        exact .inl ⟨call, _, .of_followPut (m.service.readBack now id turn)
          (by simp only [step, hw]) (piece_readBack hw now turn)⟩
  | lookup call turn =>
    by_cases hw : ∃ id, m.waiting? call = some (.lookup id)
    · obtain ⟨id, hw⟩ := hw
      let piece := m.service.lookedUp now id turn
      exact .inl ⟨call, _, .of_followPut (piece.1, piece.2, none)
        (by simp only [step, hw]; rfl) (piece_lookedUp hw now turn)⟩
    · refine .inr (.of_same ?_ ?_)
      · unfold brings?
        split
        · contradiction
        · rename_i full hevent
          cases hevent
          split
          · rename_i id h
            exact absurd ⟨id, h⟩ hw
          · rfl
        · rfl
      · simp only [step]
        split
        · rename_i id h
          exact absurd ⟨id, h⟩ hw
        · rfl
  | put number how =>
    right
    by_cases hany : m.puts.any (·.1 == number)
    · have hs : m.step now (.put number how) =
          ({ m with
              service := settlePut m.service how
              puts := m.puts.filter (·.1 != number) }, []) := by
        simp only [step, hany, if_true]
      refine ⟨rfl, ?_, fun c => by rw [hs]; rfl, fun c reply => by rw [hs]; exact List.not_mem_nil⟩
      rw [hs]
      cases how with
      | acknowledged => exact ⟨rfl, List.Sublist.refl _⟩
      | failed => exact ⟨rfl, List.Sublist.refl _⟩
      | lost => exact ⟨rfl, List.Sublist.refl _⟩
    · exact .of_same rfl (by simp only [step, hany]; rfl)
  | purge =>
    exact .inr ⟨rfl, ⟨rfl, TtlCache.purge_sublist m.service.responses now⟩, fun c => rfl,
      fun c reply => List.not_mem_nil⟩

/-- A publish of a valid record under its own id begins to write, unless its response is cached. -/
theorem step_publish_of_valid (m : ServiceMachine) (now call : Nat) {record : Record}
    (hvalid : record.validate = .ok ())
    (hcached : (m.service.cached record.id now).2 ≠ some record.response) :
    m.step now (.publish call record.id record) =
      m.follow call (m.service.cached record.id now).1 (.waits (.write record.id record)) := by
  have hid : readId record.id = .ok (record.key, record.id) := readId_recordId record.key
  have hnext : m.service.publish now record.id record =
      ((m.service.cached record.id now).1, .waits (.write record.id record)) := by
    simp only [Service.publish, hid, hvalid, ne_eq, not_true_eq_false, if_false, if_neg hcached]
  simp only [step, hnext]

/-! ## 5. What an event keeps and changes -/

section Step

variable {m : ServiceMachine} {now : Nat} {event : ServiceEvent}

variable (now) in
/-- What is brought is brought by a piece. -/
theorem piece_of_brings {b : Brought} (h : m.brings? event = some b) :
    ∃ call next, Piece m now event call (some b) (m.step now event).1.service next := by
  obtain ⟨call, next, hran⟩ | hidle := m.step_cases now event
  · have hp := hran.piece
    rw [h] at hp
    exact ⟨call, next, hp⟩
  · rw [hidle.brings] at h
    cases h

/-- What is replied is replied by a piece that ends its call. -/
theorem piece_of_replies {call : Nat} {reply : Reply}
    (h : .replies call reply ∈ (m.step now event).2) :
    Piece m now event call (m.brings? event) (m.step now event).1.service (.replies reply) := by
  obtain ⟨c, next, hran⟩ | hidle := m.step_cases now event
  · obtain ⟨rfl, rfl⟩ := (hran.replies _ _).1 h
    exact hran.piece
  · exact absurd h (hidle.replies _ _)

/-- An event that brings nothing keeps the store, and only drops cached responses. -/
theorem step_kept (h : m.brings? event = none) :
    m.service.Kept (m.step now event).1.service := by
  obtain ⟨call, next, hran⟩ | hidle := m.step_cases now event
  · have hp := hran.piece
    rw [h] at hp
    cases hp with
    | fails hkept => exact hkept
    | skips hkept => exact hkept
    | writes hkept => exact hkept
    | hits hkept => exact hkept
    | misses hkept => exact hkept
    | turns hw hkept => exact hkept
  · exact hidle.kept

/-- What an event brings is cached. -/
theorem step_cached {b : Brought} (h : m.brings? event = some b) :
    (m.step now event).1.service.responses = (m.service.cache b.id b.response now).responses := by
  obtain ⟨call, next, hp⟩ := piece_of_brings now h
  cases hp with
  | written hw hstore hcache => exact hcache
  | resolves hw hm hstore hcache => exact hcache
  | restores hw hread hstore hcache => exact hcache

/-- The cached responses after an event were there before, or the event has brought them. -/
theorem mem_responses_step {e : CacheEntry}
    (h : e ∈ (m.step now event).1.service.responses.entries) :
    e ∈ m.service.responses.entries ∨
      ∃ b, m.brings? event = some b ∧ e.key = b.id ∧ e.value = b.response.toBytes := by
  cases hb : m.brings? event with
  | none => exact .inl ((step_kept hb).responses.subset h)
  | some b =>
    rw [step_cached hb] at h
    obtain ⟨hset, -⟩ | ⟨hsame, -⟩ := m.service.cache_responses b.id b.response now
    · rcases List.mem_append.1 ((TtlCache.sublist_of_set hset).subset h) with h | h
      · exact .inl ((TtlCache.remove_sublist _ _).subset h)
      · rw [List.mem_singleton.1 h]
        exact .inr ⟨b, rfl, rfl, rfl⟩
    · rw [hsame] at h
      exact .inl h

variable (now) in
/-- A published record was waited for, and has been written. -/
theorem step_written {id : String} {record : Record}
    (h : m.brings? event = some (.published id record)) :
    m.service.store.write record = .ok (m.step now event).1.service.store ∧
      ∃ call, m.waiting? call = some (.write id record) := by
  obtain ⟨call, next, hp⟩ := piece_of_brings now h
  cases hp with
  | written hw hstore hcache => exact ⟨hstore, call, hw⟩

/-- Where nothing is published, the store is kept. -/
theorem step_store (h : ∀ id record, m.brings? event ≠ some (.published id record)) :
    (m.step now event).1.service.store = m.service.store := by
  cases hb : m.brings? event with
  | none => exact (step_kept hb).store
  | some b =>
    obtain ⟨call, next, hp⟩ := piece_of_brings now hb
    cases hp with
    | written hw hstore hcache => exact absurd hb (h _ _)
    | resolves hw hm hstore hcache => exact hstore
    | restores hw hread hstore hcache => exact hstore

/-- A restored record was read, and was waited for. -/
theorem read_of_restored {id : String} {record : Record}
    (h : m.brings? event = some (.restored id record)) :
    m.service.store.read id = .ok (some record) ∧
      ∃ call, event = .store call .proceeds ∧ m.waiting? call = some (.read id) := by
  obtain ⟨call, next, hp⟩ := piece_of_brings 0 h
  cases hp with
  | restores hw hread hstore hcache => exact ⟨hread, call, rfl, hw⟩

/-- What the DHT has answered is an item with an owner, in a lookup that was waited for. -/
theorem answered_of_resolved {id : String} {response : Response}
    (h : m.brings? event = some (.resolved id response)) :
    ∃ call full, event = .lookup call (.answers (.ok full)) ∧ full.response = response ∧
      full.isMutable = true ∧ m.waiting? call = some (.lookup id) := by
  obtain ⟨call, next, hp⟩ := piece_of_brings 0 h
  cases hp with
  | resolves hw hm hstore hcache => exact ⟨call, _, rfl, rfl, hm, hw⟩

/-- A call that waits after an event waited before, or has just begun to. -/
theorem waiting?_step {call : Nat} {w : Waiting}
    (h : (m.step now event).1.waiting? call = some w) :
    m.waiting? call = some w ∨
      (∃ id record, event = .publish call id record ∧ record.validate = .ok () ∧
        w = .write record.id record) ∨
      (∃ text key, event = .get call text ∧ readId text = .ok (key, recordId key) ∧
        w = .lookup (recordId key) ∧ (m.service.responses.Distinct →
          (m.step now event).1.service.responses.find? (recordId key) = none)) ∨
      ∃ id, m.waiting? call = some (.lookup id) ∧ w = .read id := by
  obtain ⟨c, next, hran⟩ | hidle := m.step_cases now event
  · rw [hran.waiting?] at h
    split at h
    · rename_i hc
      subst hc
      right
      -- The piece is the call's own, and only three pieces end with a wait.
      have hp := hran.piece
      generalize hb : m.brings? event = b at hp
      cases hp with
      | fails => cases h
      | skips => cases h
      | writes hkept hvalid hid =>
        cases h
        exact .inl ⟨_, _, rfl, hvalid, rfl⟩
      | written => cases h
      | hits => cases h
      | misses hkept hid hnone =>
        cases h
        exact .inr (.inl ⟨_, _, rfl, hid, rfl, hnone⟩)
      | resolves => cases h
      | turns hw hkept =>
        cases h
        exact .inr (.inr ⟨_, hw, rfl⟩)
      | restores => cases h
    · exact .inl h
  · rw [hidle.waiting?] at h
    exact .inl h

/-- A publish succeeds when it finds its response in the cache, and when the store has taken its
    record. -/
theorem published_of_step {call : Nat}
    (h : .replies call .published ∈ (m.step now event).2) :
    (∃ id record, event = .publish call id record ∧ record.validate = .ok () ∧
        m.service.responses.held? record.id = some record.response) ∨
      ∃ id record, event = .store call .proceeds ∧
        m.waiting? call = some (.write id record) ∧
        m.brings? event = some (.published id record) := by
  have hp := piece_of_replies h
  generalize hb : m.brings? event = b at hp
  cases hp with
  | fails hkept hreply => obtain h | ⟨e, h⟩ := hreply <;> cases h
  | skips hkept hvalid hid hheld => exact .inl ⟨_, _, rfl, hvalid, hheld⟩
  | written hw hstore hcache => exact .inr ⟨_, _, rfl, hw, rfl⟩

/-- A response is found in the cache, or is one that the event brings. -/
theorem found_of_step {call : Nat} {r : Response}
    (h : .replies call (.found r) ∈ (m.step now event).2) :
    (∃ text key, event = .get call text ∧ readId text = .ok (key, recordId key) ∧
        m.service.responses.held? (recordId key) = some r) ∨
      (∃ id, m.brings? event = some (.resolved id r)) ∨
      ∃ id record, m.brings? event = some (.restored id record) ∧ record.response = r := by
  have hp := piece_of_replies h
  generalize hb : m.brings? event = b at hp
  cases hp with
  | fails hkept hreply => obtain h | ⟨e, h⟩ := hreply <;> cases h
  | hits hkept hid hheld => exact .inl ⟨_, _, rfl, hid, hheld⟩
  | resolves hw hm hstore hcache => exact .inr (.inl ⟨_, rfl⟩)
  | restores hw hread hstore hcache => exact .inr (.inr ⟨_, _, rfl, rfl⟩)

end Step

end ServiceMachine

end SignedRecords
