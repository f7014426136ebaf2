import SignedRecords.Proofs.ServiceEvents

/-!
# Runs of a service

A history is what has happened to a service, in any order and at any times, with puts and the
pieces of calls interleaved as they may be. What the cache holds for an id is the response that was
cached last, what the store holds is what it held at first and what was published, and a call that
still looks for an id has found no response of it when it began.

Main statements: `held?_after`, `holds_after`, `sequence_of_broughtIn` and `begun_of_seeking`.
-/

namespace SignedRecords

/-- What has happened to a service, the last event first, each with its time. -/
abbrev History := List (Nat × ServiceEvent)

namespace ServiceMachine

/-- A machine after a history. -/
def after (m : ServiceMachine) : History → ServiceMachine
  | [] => m
  | (now, event) :: past => ((m.after past).step now event).1

theorem after_append (m : ServiceMachine) (later before : History) :
    m.after (later ++ before) = (m.after before).after later := by
  induction later with
  | nil => rfl
  | cons e rest ih =>
    obtain ⟨now, event⟩ := e
    rw [List.cons_append, after, ih]
    rfl

/-- The record that the call of an event publishes. -/
def publishes? (m : ServiceMachine) : ServiceEvent → Option Record
  | .publish _ _ record => some record
  | .store call _ =>
    match m.waiting? call with
    | some (.write _ record) => some record
    | _ => none
  | _ => none

/-- The id that the call of an event looks for, in its canonical form. -/
def seeks? (m : ServiceMachine) : ServiceEvent → Option String
  | .get _ text => (readId text).toOption.map (·.2)
  | .lookup call _ =>
    match m.waiting? call with
    | some (.lookup id) => some id
    | _ => none
  | .store call _ =>
    match m.waiting? call with
    | some (.read id) => some id
    | _ => none
  | _ => none

/-! ## 1. What is cached -/

/-- What an event brings that fits into the cache. -/
def caches? (m : ServiceMachine) (event : ServiceEvent) : Option Brought :=
  (m.brings? event).filter fun b => m.service.responses.Fits b.id b.response.toBytes

/-- What a history has brought, the last first. -/
def broughtIn (m : ServiceMachine) : History → List Brought
  | [] => []
  | (_, event) :: past => ((m.after past).brings? event).toList ++ m.broughtIn past

/-- What was cached in a history, the last first. -/
def cachedIn (m : ServiceMachine) : History → List Brought
  | [] => []
  | (_, event) :: past => ((m.after past).caches? event).toList ++ m.cachedIn past

/-- What was cached last for an id. -/
def lastCached? (m : ServiceMachine) (history : History) (id : String) : Option Brought :=
  (m.cachedIn history).find? (·.id == id)

theorem caches?_eq_some {m : ServiceMachine} {event : ServiceEvent} {b : Brought} :
    m.caches? event = some b ↔
      m.brings? event = some b ∧ m.service.responses.Fits b.id b.response.toBytes := by
  simp [caches?, Option.filter_eq_some_iff]

theorem mem_broughtIn_of_mem_cachedIn {m : ServiceMachine} {history : History} {b : Brought}
    (h : b ∈ m.cachedIn history) : b ∈ m.broughtIn history := by
  induction history with
  | nil => cases h
  | cons e past ih =>
    obtain ⟨now, event⟩ := e
    rcases List.mem_append.1 h with h | h
    · have hb := (caches?_eq_some.1 (Option.mem_toList.1 h)).1
      exact List.mem_append_left _ (Option.mem_toList.2 hb)
    · exact List.mem_append_right _ (ih h)

/-- What was brought in a history was brought by one of its events. -/
theorem split_of_broughtIn {m : ServiceMachine} {history : History} {b : Brought}
    (h : b ∈ m.broughtIn history) : ∃ later now event past,
      history = later ++ (now, event) :: past ∧ (m.after past).brings? event = some b := by
  induction history with
  | nil => cases h
  | cons e past ih =>
    obtain ⟨now, event⟩ := e
    rcases List.mem_append.1 h with h | h
    · exact ⟨[], now, event, past, rfl, Option.mem_toList.1 h⟩
    · obtain ⟨later, moment, before, earlier, rfl, hb⟩ := ih h
      exact ⟨(now, event) :: later, moment, before, earlier, rfl, hb⟩

theorem lastCached?_eq_some {m : ServiceMachine} {history : History} {id : String} {b : Brought}
    (h : m.lastCached? history id = some b) : b ∈ m.cachedIn history ∧ b.id = id :=
  ⟨List.mem_of_find?_eq_some h, by simpa using List.find?_some h⟩

theorem distinct_step {m : ServiceMachine} (hd : m.service.responses.Distinct) (now : Nat)
    (event : ServiceEvent) : (m.step now event).1.service.responses.Distinct := by
  cases hb : m.brings? event with
  | none => exact hd.of_sublist (step_kept hb).responses
  | some b =>
    rw [step_cached hb]
    obtain ⟨hset, -⟩ | ⟨hsame, -⟩ := m.service.cache_responses b.id b.response now
    · exact hd.of_set hset
    · rw [hsame]
      exact hd

theorem distinct_after {m : ServiceMachine} (hd : m.service.responses.Distinct)
    (history : History) : (m.after history).service.responses.Distinct := by
  induction history with
  | nil => exact hd
  | cons e past ih =>
    obtain ⟨now, event⟩ := e
    exact distinct_step ih now event

/-- What is held for an id after an event was cached by it, or held before and not replaced. -/
theorem held?_step {m : ServiceMachine} (hd : m.service.responses.Distinct) {now : Nat}
    {event : ServiceEvent} {id : String} {r : Response}
    (h : (m.step now event).1.service.responses.held? id = some r) :
    (∃ b, m.caches? event = some b ∧ b.id = id ∧ b.response = r) ∨
      ((∀ b, m.caches? event = some b → b.id ≠ id) ∧ m.service.responses.held? id = some r) := by
  cases hb : m.brings? event with
  | none =>
    have hno : m.caches? event = none := by rw [caches?, hb]; rfl
    refine .inr ⟨fun b hc => ?_, TtlCache.held?_of_sublist hd (step_kept hb).responses h⟩
    rw [hno] at hc
    cases hc
  | some b =>
    rw [step_cached hb] at h
    obtain ⟨hset, hfits⟩ | ⟨hsame, hfits⟩ := m.service.cache_responses b.id b.response now
    · have hc : m.caches? event = some b := caches?_eq_some.2 ⟨hb, hfits⟩
      obtain ⟨rfl, rfl⟩ | ⟨hne, hheld⟩ := TtlCache.held?_of_setResponse hd hset h
      · exact .inl ⟨b, hc, rfl, rfl⟩
      · refine .inr ⟨fun b' hb' => ?_, hheld⟩
        rw [hc] at hb'
        cases hb'
        exact fun e => hne e.symm
    · rw [hsame] at h
      refine .inr ⟨fun b' hb' => ?_, h⟩
      obtain ⟨hb', hfits'⟩ := caches?_eq_some.1 hb'
      rw [hb] at hb'
      cases hb'
      exact absurd hfits' hfits

/-- What is held for an id after a history was cached last in it, or was held at the start and
    never replaced. -/
theorem held?_after {m : ServiceMachine} (hd : m.service.responses.Distinct) {history : History}
    {id : String} {r : Response} (h : (m.after history).service.responses.held? id = some r) :
    (∃ b, m.lastCached? history id = some b ∧ b.response = r) ∨
      (m.lastCached? history id = none ∧ m.service.responses.held? id = some r) := by
  induction history with
  | nil => exact .inr ⟨rfl, h⟩
  | cons e past ih =>
    obtain ⟨now, event⟩ := e
    have hlast : m.lastCached? ((now, event) :: past) id =
        (((m.after past).caches? event).toList.find? (·.id == id)).or
          (m.lastCached? past id) := List.find?_append
    rcases held?_step (distinct_after hd past) h with ⟨b, hb, rfl, rfl⟩ | ⟨hno, hheld⟩
    · refine .inl ⟨b, ?_, rfl⟩
      rw [hlast, hb]
      simp
    · have hnone : ((m.after past).caches? event).toList.find? (·.id == id) = none := by
        rw [List.find?_eq_none]
        intro b hb
        simpa using hno b (Option.mem_toList.1 hb)
      rw [hlast, hnone, Option.none_or]
      exact ih hheld

/-! ## 2. What the store holds -/

/-- Calls wait only for writes of valid records under their own ids. -/
def WritesValid (m : ServiceMachine) : Prop :=
  ∀ call id record, m.waiting? call = some (.write id record) →
    id = record.id ∧ record.validate = .ok ()

theorem writesValid_ofService (s : Service) : (ofService s).WritesValid :=
  fun _ _ _ h => (nomatch h)

theorem writesValid_step {m : ServiceMachine} (hv : m.WritesValid) (now : Nat)
    (event : ServiceEvent) : (m.step now event).1.WritesValid := by
  intro call id record h
  rcases waiting?_step h with h | ⟨_, r, -, hvalid, hw⟩ | ⟨_, _, -, -, hw, -⟩ | ⟨_, -, hw⟩
  · exact hv call id record h
  · cases hw
    exact ⟨rfl, hvalid⟩
  · cases hw
  · cases hw

theorem writesValid_after {m : ServiceMachine} (hv : m.WritesValid) (history : History) :
    (m.after history).WritesValid := by
  induction history with
  | nil => exact hv
  | cons e past ih =>
    obtain ⟨now, event⟩ := e
    exact writesValid_step ih now event

/-- A published record is valid, and stands under its own id. -/
theorem valid_of_published {m : ServiceMachine} (hv : m.WritesValid) {event : ServiceEvent}
    {id : String} {record : Record} (h : m.brings? event = some (.published id record)) :
    id = record.id ∧ record.validate = .ok () := by
  obtain ⟨-, call, hw⟩ := step_written 0 h
  exact hv call id record hw

/-- After an event the store holds what it held and what was published. -/
theorem holds_step {m : ServiceMachine} (hv : m.WritesValid) (now : Nat) (event : ServiceEvent)
    (id : String) (n : Sequence) :
    (m.step now event).1.service.store.Holds id n ↔
      m.service.store.Holds id n ∨
        ∃ record, m.brings? event = some (.published id record) ∧ n ≤ record.sequence := by
  by_cases hb : ∃ id' record, m.brings? event = some (.published id' record)
  · obtain ⟨id', record, hb⟩ := hb
    obtain ⟨rfl, hvalid⟩ := valid_of_published hv hb
    rw [Store.holds_of_write (step_written now hb).1 hvalid id n, hb]
    refine or_congr_right ⟨?_, ?_⟩
    · rintro ⟨rfl, hn⟩
      exact ⟨record, rfl, hn⟩
    · rintro ⟨r, hr, hn⟩
      cases hr
      exact ⟨rfl, hn⟩
  · rw [step_store fun id' record h => hb ⟨id', record, h⟩]
    refine ⟨.inl, ?_⟩
    rintro (h | ⟨record, h, -⟩)
    · exact h
    · exact absurd ⟨id, record, h⟩ hb

/-- After a history the store holds what it held at the start and what was published. -/
theorem holds_after {m : ServiceMachine} (hv : m.WritesValid) (history : History) (id : String)
    (n : Sequence) :
    (m.after history).service.store.Holds id n ↔
      m.service.store.Holds id n ∨
        ∃ record, .published id record ∈ m.broughtIn history ∧ n ≤ record.sequence := by
  induction history with
  | nil => simp [after, broughtIn]
  | cons e past ih =>
    obtain ⟨now, event⟩ := e
    have hstep := holds_step (writesValid_after hv past) now event id n
    rw [after, hstep, ih, or_assoc]
    refine or_congr_right ⟨?_, ?_⟩
    · rintro (⟨record, hr, hn⟩ | ⟨record, hr, hn⟩)
      · exact ⟨record, List.mem_append_right _ hr, hn⟩
      · exact ⟨record, List.mem_append_left _ (Option.mem_toList.2 hr), hn⟩
    · rintro ⟨record, hr, hn⟩
      rcases List.mem_append.1 hr with hr | hr
      · exact .inr ⟨record, Option.mem_toList.1 hr, hn⟩
      · exact .inl ⟨record, hr, hn⟩

/-- What comes from a publish or from the store is at least as new as all that the store held
    before, and the store holds it afterwards. -/
theorem sequence_of_brought {m : ServiceMachine} (hv : m.WritesValid) (now : Nat)
    {event : ServiceEvent} {b : Brought} (h : m.brings? event = some b)
    (hb : b.isResolved = false) :
    (∀ n, m.service.store.Holds b.id n → n ≤ b.response.sequence) ∧
      (m.step now event).1.service.store.Holds b.id b.response.sequence := by
  cases b with
  | resolved id response => cases hb
  | published id record =>
    obtain ⟨rfl, hvalid⟩ := valid_of_published hv h
    refine ⟨fun n hn => hn.le_of_write (step_written now h).1, ?_⟩
    exact (holds_step hv now event _ _).2 (.inr ⟨record, h, Int64.le_refl _⟩)
  | restored id record =>
    have hread := (read_of_restored h).1
    refine ⟨fun n ⟨r, hr, hn⟩ => ?_, ?_⟩
    · have heq : some r = some record := Except.ok.inj (hr.symm.trans hread)
      cases heq
      exact hn
    · exact (holds_step hv now event _ _).2 (.inl ⟨record, hread, Int64.le_refl _⟩)

/-- All that publishes and the store have brought in a history is at least as new as what the
    store held at the start, and the store holds it. -/
theorem sequence_of_broughtIn {m : ServiceMachine} (hv : m.WritesValid) {history : History}
    {b : Brought} (h : b ∈ m.broughtIn history) (hb : b.isResolved = false) :
    (∀ n, m.service.store.Holds b.id n → n ≤ b.response.sequence) ∧
      (m.after history).service.store.Holds b.id b.response.sequence := by
  induction history with
  | nil => cases h
  | cons e past ih =>
    obtain ⟨now, event⟩ := e
    have hpast := writesValid_after hv past
    rcases List.mem_append.1 h with h | h
    · obtain ⟨hle, hholds⟩ := sequence_of_brought hpast now (Option.mem_toList.1 h) hb
      exact ⟨fun n hn => hle n ((holds_after hv past _ _).2 (.inl hn)), hholds⟩
    · obtain ⟨hle, hholds⟩ := ih h
      exact ⟨hle, (holds_step hpast now event _ _).2 (.inl hholds)⟩

/-! ## 3. Calls that look for an id -/

/-- A response that is found for an id is cached for it, or is one that the event brings for it. -/
theorem found_of_seeks {m : ServiceMachine} {now : Nat} {event : ServiceEvent} {id : String}
    (hid : m.seeks? event = some id) {call : Nat} {r : Response}
    (h : .replies call (.found r) ∈ (m.step now event).2) :
    m.service.responses.held? id = some r ∨ m.brings? event = some (.resolved id r) ∨
      ∃ record, m.brings? event = some (.restored id record) ∧ record.response = r := by
  rcases found_of_step h with ⟨text, key, rfl, hread, hheld⟩ | ⟨id', hb⟩ | ⟨id', record, hb, hr⟩
  · have heq : recordId key = id := by simpa [seeks?, hread, Except.toOption] using hid
    exact .inl (heq ▸ hheld)
  · obtain ⟨c, full, rfl, -, -, hw⟩ := answered_of_resolved hb
    have heq : id' = id := by simpa [seeks?, hw] using hid
    exact .inr (.inl (heq ▸ hb))
  · obtain ⟨-, c, rfl, hw⟩ := read_of_restored hb
    have heq : id' = id := by simpa [seeks?, hw] using hid
    exact .inr (.inr ⟨record, heq ▸ hb, hr⟩)

/-- The waits of a call that looks for an id. -/
def Seeking (m : ServiceMachine) (call : Nat) (id : String) : Prop :=
  m.waiting? call = some (.lookup id) ∨ m.waiting? call = some (.read id)

/-- A call that looks for an id after an event looked for it before, or has just begun to. -/
theorem seeking_step {m : ServiceMachine} {now : Nat} {event : ServiceEvent} {call : Nat}
    {id : String} (h : (m.step now event).1.Seeking call id) :
    m.Seeking call id ∨
      ∃ text key, event = .get call text ∧ readId text = .ok (key, id) ∧
        (m.service.get now text).2 = .waits (.lookup id) ∧
        (m.service.responses.Distinct →
          (m.step now event).1.service.responses.find? id = none) := by
  rcases h with h | h
  · rcases waiting?_step h with hw | ⟨_, _, -, -, hw⟩ | ⟨text, key, rfl, hid, hw, hnone⟩ |
      ⟨_, -, hw⟩
    · exact .inl (.inl hw)
    · cases hw
    · cases hw
      refine .inr ⟨text, key, rfl, hid, ?_, hnone⟩
      have hnext := m.waiting?_followPut call
        ((m.service.get now text).1, (m.service.get now text).2, none) call
      rw [if_pos rfl] at hnext
      have hwaits : (m.service.get now text).2.waiting? = some (.lookup (recordId key)) :=
        hnext.symm.trans h
      generalize (m.service.get now text).2 = next at hwaits
      cases next with
      | replies reply => cases hwaits
      | waits w => exact congrArg CallStep.waits (Option.some.inj hwaits)
    · cases hw
  · rcases waiting?_step h with hw | ⟨_, _, -, -, hw⟩ | ⟨_, _, -, -, hw, -⟩ | ⟨_, hw, heq⟩
    · exact .inl (.inr hw)
    · cases hw
    · cases hw
    · cases heq
      exact .inl (.inl hw)

/-- Calls look only for canonical ids. -/
def SeeksCanonical (m : ServiceMachine) : Prop :=
  ∀ call id, m.Seeking call id → ∃ key, id = recordId key

theorem seeksCanonical_ofService (s : Service) : (ofService s).SeeksCanonical := by
  intro call id h
  rcases h with h | h
  · cases h
  · cases h

theorem seeksCanonical_step {m : ServiceMachine} (hc : m.SeeksCanonical) (now : Nat)
    (event : ServiceEvent) : (m.step now event).1.SeeksCanonical := by
  intro call id h
  rcases seeking_step h with h | ⟨text, key, -, hid, -⟩
  · exact hc call id h
  · exact ⟨key, readId_eq_ok hid⟩

theorem seeksCanonical_after {m : ServiceMachine} (hc : m.SeeksCanonical) (history : History) :
    (m.after history).SeeksCanonical := by
  induction history with
  | nil => exact hc
  | cons e past ih =>
    obtain ⟨now, event⟩ := e
    exact seeksCanonical_step ih now event

/-- A call that looks for an id has begun to after the start, and no response of the id was
    cached then. -/
theorem begun_of_seeking {m : ServiceMachine} (hcalls : m.calls = [])
    (hd : m.service.responses.Distinct) {history : History} {call : Nat} {id : String}
    (h : (m.after history).Seeking call id) :
    ∃ later now text before, history = later ++ (now, .get call text) :: before ∧
      (readId text).toOption.map (·.2) = some id ∧
      (m.after ((now, .get call text) :: before)).service.responses.find? id = none := by
  induction history with
  | nil =>
    have hnone : m.waiting? call = none := by rw [waiting?, hcalls]; rfl
    rcases h with h | h
    · rw [after, hnone] at h
      cases h
    · rw [after, hnone] at h
      cases h
  | cons e past ih =>
    obtain ⟨now, event⟩ := e
    -- Either the call looked for the id before this event, or the event is its get.
    have hcases : (m.after past).Seeking call id ∨
        ∃ text, event = .get call text ∧ (readId text).toOption.map (·.2) = some id ∧
          ((m.after past).step now event).1.service.responses.find? id = none := by
      rcases h with h | h
      · rcases waiting?_step h with h | ⟨_, _, -, -, hw⟩ | ⟨text, key, he, hid, hw, hnone⟩ |
          ⟨_, -, hw⟩
        · exact .inl (.inl h)
        · cases hw
        · cases hw
          exact .inr ⟨text, he, by rw [hid]; rfl, hnone (distinct_after hd past)⟩
        · cases hw
      · rcases waiting?_step h with h | ⟨_, _, -, -, hw⟩ | ⟨_, _, -, -, hw, -⟩ | ⟨_, h, hw⟩
        · exact .inl (.inr h)
        · cases hw
        · cases hw
        · cases hw
          exact .inl (.inl h)
    rcases hcases with h | ⟨text, rfl, hid, hnone⟩
    · obtain ⟨later, t, text, before, rfl, hid, hnone⟩ := ih h
      exact ⟨(now, event) :: later, t, text, before, rfl, hid, hnone⟩
    · exact ⟨[], now, text, past, rfl, hid, hnone⟩

end ServiceMachine

end SignedRecords
