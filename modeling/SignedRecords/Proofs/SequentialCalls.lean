import SignedRecords.Proofs.MissingMarks

/-!
# Calls one after the other

When calls come one after the other, no id is marked as missing while its response is cached. A get
marks its id only after it has found neither mark nor response, and a publish takes the mark away
when it caches. A publish that finds its response in the cache takes no mark away, and there is
none.

Main statements: `settled_after`, `Settled.exclusive` and `not_rateLimited`.
-/

namespace SignedRecords

/-! ## 1. One call after the other -/

/-- The call that begins with an event. -/
def ServiceEvent.begins? : ServiceEvent → Option Nat
  | .publish call _ _ => some call
  | .get call _ => some call
  | _ => none

/-- The clock does not go back in a history. -/
def History.Timely (history : History) : Prop :=
  history.Pairwise fun later earlier => earlier.1 ≤ later.1

namespace ServiceMachine

/-- No call waits. -/
def Quiet (m : ServiceMachine) : Prop := ∀ call, m.waiting? call = none

theorem quiet_of_calls {m : ServiceMachine} (h : m.calls = []) : m.Quiet := by
  intro call
  rw [waiting?, h]
  rfl

/-- In a history a call begins only where no other one waits. -/
def Sequential (m : ServiceMachine) : History → Prop
  | [] => True
  | (_, event) :: past => m.Sequential past ∧ (event.begins? ≠ none → (m.after past).calls = [])

theorem waits_of_seeking {m : ServiceMachine} {call : Nat} {id : String}
    (h : m.Seeking call id) : m.waiting? call ≠ none := by
  rcases h with hw | hw
  · exact Option.ne_none_iff_exists'.2 ⟨_, hw⟩
  · exact Option.ne_none_iff_exists'.2 ⟨_, hw⟩

/-- A call that waits after an event waited before or begins with it. -/
theorem waited_or_begins {m : ServiceMachine} {now : Nat} {event : ServiceEvent} {call : Nat}
    (h : (m.step now event).1.waiting? call ≠ none) :
    m.waiting? call ≠ none ∨ event.begins? = some call := by
  obtain ⟨w, hw⟩ := Option.ne_none_iff_exists'.1 h
  rcases waiting?_step hw with hw | ⟨id, record, rfl, -⟩ | ⟨text, key, rfl, -⟩ | ⟨id, hw, -⟩
  · exact .inl (Option.ne_none_iff_exists'.2 ⟨_, hw⟩)
  · exact .inr rfl
  · exact .inr rfl
  · exact .inl (Option.ne_none_iff_exists'.2 ⟨_, hw⟩)

/-- What is brought ends the call that waited for it. -/
theorem ended_of_brings {m : ServiceMachine} (now : Nat) {event : ServiceEvent} {b : Brought}
    (h : m.brings? event = some b) :
    ∃ call, m.waiting? call ≠ none ∧ (m.step now event).1.waiting? call = none := by
  obtain ⟨call, next, hran⟩ | hidle := m.step_cases now event
  · have hpiece := hran.piece
    have hafter := hran.waiting? call
    rw [if_pos rfl] at hafter
    rw [h] at hpiece
    refine ⟨call, ?_⟩
    rw [hafter]
    cases hpiece with
    | written hw => exact ⟨Option.ne_none_iff_exists'.2 ⟨_, hw⟩, rfl⟩
    | resolves hw => exact ⟨Option.ne_none_iff_exists'.2 ⟨_, hw⟩, rfl⟩
    | restores hw => exact ⟨Option.ne_none_iff_exists'.2 ⟨_, hw⟩, rfl⟩
  · rw [hidle.brings] at h
    cases h

/-! ## 2. The two caches -/

/-- A machine as calls that come one after the other leave it. -/
structure Settled (m : ServiceMachine) (now : Nat) : Prop where
  negative : m.service.negative.Neat
  responses : m.service.responses.Distinct
  /-- At most one call waits. -/
  alone : ∀ call other, m.waiting? call ≠ none → m.waiting? other ≠ none → call = other
  /-- Of a mark and a response for one id, one is no longer live. -/
  apart : ∀ n ∈ m.service.negative.entries, ∀ r ∈ m.service.responses.entries, n.key = r.key →
    n.expiresAt ≤ now ∨ r.expiresAt ≤ now
  /-- An id that is looked for is not marked, and its response is not cached. -/
  sought : ∀ call id, m.Seeking call id → (∀ n ∈ m.service.negative.entries, n.key ≠ id) ∧
    ∀ r ∈ m.service.responses.entries, r.key ≠ id

theorem settled_fresh (config : ServiceConfig) (store : Store) (now : Nat) :
    (ofService (.fresh config store)).Settled now where
  negative := TtlCache.neat_empty _ _ _
  responses := TtlCache.distinct_empty _ _ _
  alone _ _ h _ := absurd rfl h
  apart _ hn _ _ := nomatch hn
  sought _ _ h := by rcases h with h | h <;> cases h

theorem Settled.later {m : ServiceMachine} {now later : Nat} (h : m.Settled now)
    (hle : now ≤ later) : m.Settled later :=
  { h with
    apart := fun n hn r hr hkey =>
      (h.apart n hn r hr hkey).imp (Nat.le_trans · hle) (Nat.le_trans · hle) }

/-- Of the calls that wait after an event there is one at most: when one begins, none waited. -/
theorem Settled.alone_step {m : ServiceMachine} {now : Nat} (h : m.Settled now)
    {event : ServiceEvent} (hbegins : event.begins? ≠ none → m.calls = []) {call other : Nat}
    (hcall : (m.step now event).1.waiting? call ≠ none)
    (hother : (m.step now event).1.waiting? other ≠ none) : call = other := by
  rcases waited_or_begins hcall with hcall | hcall
  · rcases waited_or_begins hother with hother | hother
    · exact h.alone call other hcall hother
    · have hquiet := quiet_of_calls (hbegins (Option.ne_none_iff_exists'.2 ⟨_, hother⟩))
      exact absurd (hquiet call) hcall
  · rcases waited_or_begins hother with hother | hother
    · have hquiet := quiet_of_calls (hbegins (Option.ne_none_iff_exists'.2 ⟨_, hcall⟩))
      exact absurd (hquiet other) hother
    · exact Option.some.inj (hcall.symm.trans hother)

/-- What an event brings is not marked afterwards. -/
theorem Settled.unmarked_of_brings {m : ServiceMachine} {now : Nat} (h : m.Settled now)
    {event : ServiceEvent} {b : Brought} (hb : m.brings? event = some b) :
    ∀ n ∈ (m.step now event).1.service.negative.entries, n.key ≠ b.id := by
  intro n hn
  have hbefore : n ∈ m.service.negative.entries := by
    refine (mem_negative_step hn).resolve_right fun hm => ?_
    rw [(step_of_marks now hm).1] at hb
    cases hb
  cases b with
  | published id record => exact unmarked_of_published h.negative hb n hn
  | resolved id response =>
    obtain ⟨call, _, -, -, -, hw⟩ := answered_of_resolved hb
    exact (h.sought call id (.inl hw)).1 n hbefore
  | restored id record =>
    obtain ⟨-, call, -, hw⟩ := read_of_restored hb
    exact (h.sought call id (.inr hw)).1 n hbefore

/-- As long as a call looks for an id, nothing is brought or marked: it is the only one. -/
theorem Settled.sought_of_waits {m : ServiceMachine} {now : Nat} (h : m.Settled now)
    {event : ServiceEvent} {call : Nat} {id : String} (hseek : m.Seeking call id)
    (hwaits : (m.step now event).1.waiting? call ≠ none) :
    (∀ n ∈ (m.step now event).1.service.negative.entries, n.key ≠ id) ∧
      ∀ r ∈ (m.step now event).1.service.responses.entries, r.key ≠ id := by
  have hgoes : ∀ c, m.waiting? c ≠ none → (m.step now event).1.waiting? c ≠ none := by
    intro c hc
    rw [h.alone c call hc (waits_of_seeking hseek)]
    exact hwaits
  obtain ⟨hneg, hresp⟩ := h.sought call id hseek
  constructor
  · intro n hn
    rcases mem_negative_step hn with hn | hm
    · exact hneg n hn
    · obtain ⟨-, -, c, hw, hended⟩ := step_of_marks now hm
      exact absurd hended (hgoes c (Option.ne_none_iff_exists'.2 ⟨_, hw⟩))
  · intro r hr
    rcases mem_responses_step hr with hr | ⟨b, hb, -⟩
    · exact hresp r hr
    · obtain ⟨c, hw, hended⟩ := ended_of_brings now hb
      exact absurd hended (hgoes c hw)

/-- A get that goes on to look for an id has found it neither marked nor cached. -/
theorem Settled.sought_of_get {m : ServiceMachine} {now : Nat} (h : m.Settled now) {call : Nat}
    {text : String} {key : Octets 32} {id : String} (hid : readId text = .ok (key, id))
    (hnext : (m.service.get now text).2 = .waits (.lookup id))
    (hnone : (m.step now (.get call text)).1.service.responses.find? id = none) :
    (∀ n ∈ (m.step now (.get call text)).1.service.negative.entries, n.key ≠ id) ∧
      ∀ r ∈ (m.step now (.get call text)).1.service.responses.entries, r.key ≠ id := by
  obtain rfl := readId_eq_ok hid
  have hdead : ¬ m.service.negative.Live (recordId key) now := by
    intro hlive
    rw [Service.get_of_marked hid hlive] at hnext
    cases hnext
  have hread := TtlCache.find?_of_get_none h.negative.distinct (TtlCache.get_of_not_live hdead)
  have hneg : (m.step now (.get call text)).1.service.negative =
      (m.service.negative.get (recordId key) now).1 := by
    simp only [ServiceMachine.step, follow_service]
    exact Service.get_negative _ _ hid
  constructor
  · intro n hn
    rw [hneg] at hn
    simpa using List.find?_eq_none.1 hread n hn
  · intro r hr
    simpa using List.find?_eq_none.1 hnone r hr

theorem Settled.step {m : ServiceMachine} {now : Nat} (h : m.Settled now) {event : ServiceEvent}
    (hbegins : event.begins? ≠ none → m.calls = []) : (m.step now event).1.Settled now := by
  constructor
  case negative => exact neat_step h.negative now event
  case responses => exact distinct_step h.responses now event
  case alone => exact fun call other => h.alone_step hbegins
  case apart =>
    intro n hn r hr hkey
    rcases mem_responses_step hr with hr | ⟨b, hb, hrb, -⟩
    · rcases mem_negative_step hn with hn | hm
      · exact h.apart n hn r hr hkey
      · obtain ⟨-, -, call, hw, -⟩ := step_of_marks now hm
        exact absurd hkey.symm ((h.sought call _ (.inr hw)).2 r hr)
    · exact absurd (hkey.trans hrb) (h.unmarked_of_brings hb n hn)
  case sought =>
    intro call id hseek
    rcases seeking_step hseek with hbefore | ⟨text, key, rfl, hid, hnext, hnone⟩
    · exact h.sought_of_waits hbefore (waits_of_seeking hseek)
    · exact h.sought_of_get hid hnext (hnone h.responses)

/-- Whatever waiting there is between the calls, they leave the caches apart. -/
theorem settled_after {m : ServiceMachine} (hm : ∀ now, m.Settled now) {history : History}
    (htime : history.Timely) (hseq : m.Sequential history) {now : Nat}
    (hnow : ∀ e ∈ history, e.1 ≤ now) : (m.after history).Settled now := by
  induction history generalizing now with
  | nil => exact hm now
  | cons e past ih =>
    obtain ⟨moment, event⟩ := e
    obtain ⟨hpast, htimely⟩ := List.pairwise_cons.1 htime
    have hbefore := ih htimely hseq.1 hpast
    exact (hbefore.step hseq.2).later (hnow _ List.mem_cons_self)

end ServiceMachine

/-! ## 3. After a publish -/

/-- No id is marked as missing while its response is cached. -/
def Service.Exclusive (s : Service) (now : Nat) : Prop :=
  ∀ id, ¬ (s.negative.Live id now ∧ s.responses.Live id now)

namespace ServiceMachine

theorem Settled.exclusive {m : ServiceMachine} {now : Nat} (h : m.Settled now) :
    m.service.Exclusive now := by
  rintro id ⟨hmarked, hcached⟩
  obtain ⟨n, hn, hnlive⟩ := TtlCache.live_iff.1 hmarked
  obtain ⟨r, hr, hrlive⟩ := TtlCache.live_iff.1 hcached
  have hnkey : n.key = id := by simpa using List.find?_some hn
  have hrkey : r.key = id := by simpa using List.find?_some hr
  have hapart := h.apart n (List.mem_of_find?_eq_some hn) r (List.mem_of_find?_eq_some hr)
    (hnkey.trans hrkey.symm)
  simp only [CacheEntry.isLive, decide_eq_true_eq] at hnlive hrlive
  omega

/-- A call that is replied to has begun with the event, or waited before; now it does not wait. -/
theorem ended_of_replies {m : ServiceMachine} {now : Nat} {event : ServiceEvent} {call : Nat}
    {reply : Reply} (h : .replies call reply ∈ (m.step now event).2) :
    (event.begins? = some call ∨ m.waiting? call ≠ none) ∧
      (m.step now event).1.waiting? call = none := by
  constructor
  · cases event with
    | publish c id record =>
      obtain ⟨rfl, -⟩ := replies_follow.1 h
      exact .inl rfl
    | get c text =>
      obtain ⟨rfl, -⟩ := replies_follow.1 h
      exact .inl rfl
    | store c turn =>
      simp only [step] at h
      split at h
      · rename_i hw
        obtain ⟨rfl, -⟩ := (m.replies_followPut c _ call reply).1 h
        exact .inr (Option.ne_none_iff_exists'.2 ⟨_, hw⟩)
      · rename_i hw
        obtain ⟨rfl, -⟩ := (m.replies_followPut c _ call reply).1 h
        exact .inr (Option.ne_none_iff_exists'.2 ⟨_, hw⟩)
      · cases h
    | lookup c turn =>
      simp only [step] at h
      split at h
      · rename_i id hw
        obtain ⟨rfl, -⟩ := replies_follow.1 h
        exact .inr (Option.ne_none_iff_exists'.2 ⟨_, hw⟩)
      · cases h
    | put number how =>
      simp only [step] at h
      split at h
      · cases h
      · cases h
    | purge => cases h
  · obtain ⟨c, next, hran⟩ | hidle := m.step_cases now event
    · obtain ⟨rfl, rfl⟩ := (hran.replies _ _).1 h
      rw [hran.waiting?, if_pos rfl]
      rfl
    · exact absurd h (hidle.replies _ _)

/-- When the only call has ended, none waits. -/
theorem Settled.quiet {m : ServiceMachine} {now : Nat} (h : m.Settled now) {event : ServiceEvent}
    (hbegins : event.begins? ≠ none → m.calls = []) {call : Nat} {reply : Reply}
    (hreply : .replies call reply ∈ (m.step now event).2) : (m.step now event).1.Quiet := by
  obtain ⟨hcall, hended⟩ := ended_of_replies hreply
  intro other
  refine Decidable.byContradiction fun hwaits => ?_
  have hother : other = call := by
    rcases hcall with hcall | hcall
    · have hquiet := quiet_of_calls (hbegins (Option.ne_none_iff_exists'.2 ⟨_, hcall⟩))
      rcases waited_or_begins hwaits with hwaited | hbegun
      · exact absurd (hquiet other) hwaited
      · exact Option.some.inj (hbegun.symm.trans hcall)
    · rcases waited_or_begins hwaits with hwaited | hbegun
      · exact h.alone other call hwaited hcall
      · have hquiet := quiet_of_calls (hbegins (Option.ne_none_iff_exists'.2 ⟨_, hbegun⟩))
        exact absurd (hquiet call) hcall
  exact hwaits (hother ▸ hended)

/-- After a publish has succeeded its id is not marked, or the mark is no longer live. -/
theorem Settled.unmarked {m : ServiceMachine} {now : Nat} (h : m.Settled now)
    (hv : m.WritesValid) {event : ServiceEvent} {r : Record}
    (hr : m.publishes? event = some r) {call : Nat}
    (hok : .replies call .published ∈ (m.step now event).2) :
    ∀ n ∈ (m.step now event).1.service.negative.entries, n.key = r.id → n.expiresAt ≤ now := by
  intro n hn hkey
  rcases published_of_step hok with ⟨id, record, rfl, -, -⟩ | ⟨id, record, rfl, hw, hb⟩
  · -- Its response is cached, so that a mark would not be live.
    obtain rfl : record = r := Option.some.inj hr
    obtain ⟨-, hskips⟩ := replies_follow.1 hok
    obtain ⟨e, he, hlive⟩ := TtlCache.live_iff.1 (Service.live_of_publish hskips)
    have hekey : e.key = record.id := by simpa using List.find?_some he
    rw [ServiceMachine.step, follow_service, Service.publish_negative] at hn
    have hapart := h.apart n hn e (List.mem_of_find?_eq_some he) (hkey.trans hekey.symm)
    simp only [CacheEntry.isLive, decide_eq_true_eq] at hlive
    omega
  · have hrecord : record = r := by simpa [publishes?, hw] using hr
    obtain ⟨rfl, -⟩ := valid_of_published hv hb
    exact absurd (hkey.trans (congrArg Record.id hrecord.symm))
      (unmarked_of_published h.negative hb n hn)

/-- Where no call waits and none begins, marks are at most dropped. -/
theorem Quiet.after {m : ServiceMachine} (h : m.Quiet) {history : History}
    (hno : ∀ e ∈ history, e.2.begins? = none) :
    (m.after history).Quiet ∧
      ∀ n ∈ (m.after history).service.negative.entries, n ∈ m.service.negative.entries := by
  induction history with
  | nil => exact ⟨h, fun _ hn => hn⟩
  | cons e past ih =>
    obtain ⟨now, event⟩ := e
    rw [List.forall_mem_cons] at hno
    obtain ⟨hquiet, hsame⟩ := ih hno.2
    constructor
    · intro call
      refine Decidable.byContradiction fun hwaits => ?_
      rcases waited_or_begins hwaits with hwaited | hbegun
      · exact hwaited (hquiet call)
      · exact absurd (hno.1.symm.trans hbegun) (Option.some_ne_none call).symm
    · intro n hn
      rcases mem_negative_step hn with hn | hm
      · exact hsame n hn
      · obtain ⟨-, -, call, hw, -⟩ := step_of_marks now hm
        rw [hquiet] at hw
        cases hw

/-- In a history the last call was a publish of a record, and has succeeded. -/
def PublishedLast (m : ServiceMachine) (history : History) (r : Record) : Prop :=
  ∃ later moment event before call, history = later ++ (moment, event) :: before ∧
    (m.after before).publishes? event = some r ∧
    .replies call .published ∈ ((m.after before).step moment event).2 ∧
    ∀ e ∈ later, e.2.begins? = none

theorem sequential_append {m : ServiceMachine} {later before : History}
    (h : m.Sequential (later ++ before)) : m.Sequential before := by
  induction later with
  | nil => exact h
  | cons e rest ih => exact ih h.1

/-- A get right after a publish is not refused for a mark. -/
theorem not_rateLimited {m : ServiceMachine} (hm : ∀ now, m.Settled now) (hv : m.WritesValid)
    {history : History} (htime : history.Timely) (hseq : m.Sequential history) {r : Record}
    (hlast : m.PublishedLast history r) {now : Nat} (hnow : ∀ e ∈ history, e.1 ≤ now)
    {text : String} (hid : readId text = .ok (r.key, r.id)) (call : Nat) (id : String) :
    .replies call (.failed (.rateLimited id)) ∉
      ((m.after history).step now (.get call text)).2 := by
  obtain ⟨later, moment, event, before, caller, rfl, hr, hok, hno⟩ := hlast
  obtain ⟨-, hafter, -⟩ := List.pairwise_append.1 htime
  obtain ⟨hbefore, htimely⟩ := List.pairwise_cons.1 hafter
  obtain ⟨hsequential, hbegins⟩ := sequential_append hseq
  have hsettled := settled_after hm htimely hsequential hbefore
  have hdead := hsettled.unmarked (writesValid_after hv before) hr hok
  obtain ⟨-, hsame⟩ := (hsettled.quiet hbegins hok).after hno
  have hmoment : moment ≤ now := hnow (moment, event) (by simp)
  have hunmarked : ¬ (m.after (later ++ (moment, event) :: before)).service.negative.Live
      (recordId r.key) now := by
    intro hlive
    obtain ⟨n, hn, hnlive⟩ := TtlCache.live_iff.1 hlive
    have hkey : n.key = recordId r.key := by simpa using List.find?_some hn
    have hmem := List.mem_of_find?_eq_some hn
    rw [after_append] at hmem
    have hexpired := hdead n (hsame n hmem) hkey
    simp only [CacheEntry.isLive, decide_eq_true_eq] at hnlive
    omega
  intro hreply
  obtain ⟨-, hlimited⟩ := replies_follow.1 hreply
  exact Service.get_of_unmarked hid hunmarked id hlimited

end ServiceMachine

end SignedRecords
