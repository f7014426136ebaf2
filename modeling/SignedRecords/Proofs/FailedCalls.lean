import Mathlib.Data.List.Basic
import SignedRecords.Proofs.CachePurges
import SignedRecords.Proofs.NeutralKey
import SignedRecords.Proofs.SequentialCalls

/-!
# Calls that fail

A call that fails may have gone a long way: it has looked into both caches, which drop what is no
longer live or does not read, it has waited for the DHT, and it has waited for the store. On the way
nobody is told anything and nothing is written, so that all that can be read of the service stays as
it is: the store, the counts, what is live and legible in the caches, and the puts that are under
way. What is written at the end of a call belongs to its success, or to an id that is nowhere.

Main statements: `ServiceMachine.traceless_of_call` for one event, and `failed_calls_traceless` for
whole calls.
-/

namespace SignedRecords

/-! ## 1. What can be read of a cache -/

namespace TtlCache

/-- The live entries that read as responses. -/
def legible (c : TtlCache) (now : Nat) : List CacheEntry :=
  (c.live now).filter fun e => (Response.ofBytes e.value).isOk

theorem legible_later (c : TtlCache) {now later : Nat} (h : now ≤ later) :
    c.legible later = (c.legible now).filter (·.isLive later) := by
  unfold legible
  rw [c.live_later h]
  exact List.filter_comm _ _ _

theorem legible_keep (c : TtlCache) (p : CacheEntry → Bool) (now : Nat) :
    (c.keep p).legible now = (c.legible now).filter p := by
  unfold legible
  rw [live_keep]
  exact List.filter_comm _ _ _

theorem Neat.get {c : TtlCache} (h : c.Neat) (key : String) (now : Nat) :
    (c.get key now).1.Neat := by
  rw [h.get_eq]
  exact h.keep _

/-- A read drops nothing that is live. -/
theorem Neat.live_get {c : TtlCache} (h : c.Neat) (key : String) (now : Nat) :
    (c.get key now).1.live now = c.live now := by
  rw [h.get_eq, live_keep, List.filter_eq_self]
  intro e he
  rw [(List.mem_filter.1 he).2, Bool.or_true]

theorem Neat.live_purge {c : TtlCache} (h : c.Neat) (now : Nat) :
    (c.purge now).1.live now = c.live now := by
  rw [h.purge_eq, live_keep, List.filter_eq_self]
  exact fun e he => (List.mem_filter.1 he).2

/-- Looking for a response drops nothing that is live and legible. -/
theorem Neat.response {c : TtlCache} (h : c.Neat) (id : String) (now : Nat) :
    (c.response id now).1.Neat ∧ (c.response id now).1.legible now = c.legible now := by
  have hneat := h.get id now
  have hlive := h.live_get id now
  unfold TtlCache.response
  split
  · rename_i c' hget
    rw [hget] at hneat hlive
    exact ⟨hneat, congrArg (List.filter _) hlive⟩
  · rename_i c' bs hget
    rw [hget] at hneat hlive
    split
    · exact ⟨hneat, congrArg (List.filter _) hlive⟩
    · rename_i e hcorrupt
      -- The entry that leaves is the only one of its key, and it does not read.
      obtain ⟨found, hfind, hvalue, -⟩ := entry_of_get (congrArg Prod.snd hget)
      have hother : ∀ x ∈ c.legible now, (x.key != id) = true := by
        intro x hx
        obtain ⟨hxlive, hreads⟩ := List.mem_filter.1 hx
        rw [bne_iff_ne]
        intro hkey
        have hsame : c.entries.find? (·.key == id) = some x :=
          hkey ▸ find?_of_mem h.distinct (List.mem_filter.1 hxlive).1
        obtain rfl : x = found := Option.some.inj (hsame.symm.trans hfind)
        rw [hvalue, hcorrupt] at hreads
        cases hreads
      have hlegible : c'.legible now = c.legible now := congrArg (List.filter _) hlive
      rw [hneat.remove_eq]
      refine ⟨hneat.keep _, ?_⟩
      rw [legible_keep, hlegible, List.filter_eq_self]
      exact hother

end TtlCache

/-! ## 2. Services -/

namespace Service

/-- A service whose caches are as their operations leave them. -/
structure Tidy (s : Service) : Prop where
  responses : s.responses.Neat
  negative : s.negative.Neat

theorem tidy_fresh (config : ServiceConfig) (store : Store) : (fresh config store).Tidy :=
  ⟨TtlCache.neat_empty _ _ _, TtlCache.neat_empty _ _ _⟩

/-- Nothing that can be read of a service is different. -/
structure Untouched (s s' : Service) (now : Nat) : Prop where
  /-- The records and the ledger of failures. -/
  store : s'.store = s.store
  succeeded : s'.putsSucceeded = s.putsSucceeded
  failed : s'.putsFailed = s.putsFailed
  responses : s'.responses.legible now = s.responses.legible now
  negative : s'.negative.live now = s.negative.live now

theorem Untouched.rfl (s : Service) (now : Nat) : s.Untouched s now :=
  ⟨Eq.refl _, Eq.refl _, Eq.refl _, Eq.refl _, Eq.refl _⟩

theorem Untouched.trans {s s' s'' : Service} {now : Nat} (h : s.Untouched s' now)
    (h' : s'.Untouched s'' now) : s.Untouched s'' now :=
  ⟨h'.store.trans h.store, h'.succeeded.trans h.succeeded, h'.failed.trans h.failed,
    h'.responses.trans h.responses, h'.negative.trans h.negative⟩

/-- What cannot be told apart now cannot be told apart later. -/
theorem Untouched.later {s s' : Service} {now later : Nat} (h : s.Untouched s' now)
    (hle : now ≤ later) : s.Untouched s' later := by
  refine ⟨h.store, h.succeeded, h.failed, ?_, ?_⟩
  · rw [TtlCache.legible_later _ hle, TtlCache.legible_later _ hle, h.responses]
  · rw [TtlCache.live_later _ hle, TtlCache.live_later _ hle, h.negative]

variable {s : Service}

theorem Tidy.cached (h : s.Tidy) (id : String) (now : Nat) :
    (s.cached id now).1.Tidy ∧ s.Untouched (s.cached id now).1 now := by
  obtain ⟨hneat, hlegible⟩ := h.responses.response id now
  exact ⟨⟨hneat, h.negative⟩, ⟨rfl, rfl, rfl, hlegible, rfl⟩⟩

theorem Tidy.isMissing (h : s.Tidy) (id : String) (now : Nat) :
    (s.isMissing id now).1.Tidy ∧ s.Untouched (s.isMissing id now).1 now :=
  ⟨⟨h.responses, h.negative.get id now⟩, ⟨rfl, rfl, rfl, rfl, h.negative.live_get id now⟩⟩

theorem Tidy.cache (h : s.Tidy) (id : String) (r : Response) (now : Nat) :
    (s.cache id r now).responses.Neat := by
  obtain ⟨hset, -⟩ | ⟨hsame, -⟩ := s.cache_responses id r now
  · exact (h.responses.writes hset).neat
  · rw [hsame]
    exact h.responses

/-- The beginning of a publish leaves all as it is. -/
theorem Tidy.publish (h : s.Tidy) (now : Nat) (id : String) (record : Record) :
    (s.publish now id record).1.Tidy ∧ s.Untouched (s.publish now id record).1 now := by
  unfold Service.publish
  split
  · exact ⟨h, .rfl s now⟩
  · rename_i key id' hid
    split
    · exact ⟨h, .rfl s now⟩
    · split
      · exact ⟨h, .rfl s now⟩
      · dsimp only
        split
        · exact h.cached id' now
        · exact h.cached id' now

/-- The beginning of a get leaves all as it is. -/
theorem Tidy.get (h : s.Tidy) (now : Nat) (id : String) :
    (s.get now id).1.Tidy ∧ s.Untouched (s.get now id).1 now := by
  unfold Service.get
  split
  · exact ⟨h, .rfl s now⟩
  · rename_i key id' hid
    obtain ⟨htidy, huntouched⟩ := h.isMissing id' now
    obtain ⟨htidy', huntouched'⟩ := htidy.cached id' now
    dsimp only
    split
    · exact ⟨htidy, huntouched⟩
    · split
      · exact ⟨htidy', huntouched.trans huntouched'⟩
      · exact ⟨htidy', huntouched.trans huntouched'⟩

end Service

/-! ## 3. Events -/

/-- The call that an event is a piece of. -/
def ServiceEvent.call? : ServiceEvent → Option Nat
  | .publish call _ _ => some call
  | .get call _ => some call
  | .store call _ => some call
  | .lookup call _ => some call
  | .put _ _ => none
  | .purge => none

namespace ServiceMachine

/-- Nothing that can be read of a service is different, and no put has been started or has ended. -/
structure Untouched (m m' : ServiceMachine) (now : Nat) : Prop where
  service : m.service.Untouched m'.service now
  puts : m'.puts = m.puts

/-- An event leaves all as it is, starts no put and marks no id as missing. -/
structure Traceless (m : ServiceMachine) (now : Nat) (event : ServiceEvent) : Prop where
  untouched : m.Untouched (m.step now event).1 now
  unannounced : ∀ number record, .puts number record ∉ (m.step now event).2
  unmarked : m.marks? event = none

variable {m : ServiceMachine} {now : Nat} {event : ServiceEvent} {call : Nat}

/-- A piece of a call that starts no put. -/
theorem Traceless.of_piece {s : Service} (call : Nat) {next : CallStep}
    (hstep : m.step now event = m.followPut call (s, next, none)) (hs : m.service.Untouched s now)
    (hmarks : m.marks? event = none) : m.Traceless now event := by
  refine ⟨⟨?_, ?_⟩, fun number record hmem => ?_, hmarks⟩
  · rw [hstep, followPut_service]
    exact hs
  · rw [hstep]
    cases next <;> rfl
  · rw [hstep] at hmem
    cases next <;> cases List.mem_singleton.1 hmem

theorem Traceless.of_same (hstep : m.step now event = (m, [])) (hmarks : m.marks? event = none) :
    m.Traceless now event := by
  refine ⟨?_, fun number record hmem => ?_, hmarks⟩
  · rw [hstep]
    exact ⟨.rfl _ now, rfl⟩
  · rw [hstep] at hmem
    cases hmem

/-- The turn of a store call leaves no trace unless the call ends with success or finds nothing. -/
theorem traceless_store {turn : StoreTurn}
    (hfails : ∀ reply, .replies call reply ∈ (m.step now (.store call turn)).2 →
      ∃ error, reply = .failed error) : m.Traceless now (.store call turn) := by
  cases hw : m.waiting? call with
  | none => exact .of_same (by simp only [step, hw]) (by simp only [marks?, hw])
  | some w =>
    cases w with
    | lookup id => exact .of_same (by simp only [step, hw]) (by simp only [marks?, hw])
    | write id record =>
      have hstep : m.step now (.store call turn) =
          m.followPut call (m.service.written now id record turn) := by
        simp only [step, hw]
      obtain ⟨e, -, heq⟩ | ⟨store, -, -, -, hnext⟩ := m.service.written_cases now id record turn
      · rw [heq] at hstep
        exact .of_piece call hstep (.rfl _ now) (by simp only [marks?, hw])
      · obtain ⟨error, herror⟩ := hfails .published
          (hstep ▸ (m.replies_followPut call _ call _).2 ⟨rfl, congrArg Prod.fst hnext⟩)
        cases herror
    | read id =>
      have hstep : m.step now (.store call turn) =
          m.followPut call (m.service.readBack now id turn) := by
        simp only [step, hw]
      have hreply : ∀ reply, (m.service.readBack now id turn).2.1 = .replies reply →
          ∃ error, reply = .failed error := fun reply hnext =>
        hfails reply (hstep ▸ (m.replies_followPut call _ call _).2 ⟨rfl, hnext⟩)
      unfold Service.readBack at hstep hreply
      split at hstep
      · rename_i e hrun
        exact .of_piece call hstep (.rfl _ now) (by simp only [marks?, hw, hrun])
      · rename_i hrun
        rw [hrun] at hreply
        obtain ⟨error, herror⟩ := hreply _ rfl
        cases herror
      · rename_i record hrun
        rw [hrun] at hreply
        obtain ⟨error, herror⟩ := hreply _ rfl
        cases herror

/-- The end of a lookup leaves no trace unless the call ends with it. -/
theorem traceless_lookup {turn : LookupTurn}
    (hfails : ∀ reply, .replies call reply ∈ (m.step now (.lookup call turn)).2 →
      ∃ error, reply = .failed error) : m.Traceless now (.lookup call turn) := by
  cases hw : m.waiting? call with
  | none => exact .of_same (by simp only [step, hw]) rfl
  | some w =>
    cases w with
    | write id record => exact .of_same (by simp only [step, hw]) rfl
    | read id => exact .of_same (by simp only [step, hw]) rfl
    | lookup id =>
      have hstep : m.step now (.lookup call turn) = m.followPut call
          ((m.service.lookedUp now id turn).1, (m.service.lookedUp now id turn).2, none) := by
        simp only [step, hw]
        rfl
      obtain ⟨full, -, -, heq⟩ | ⟨-, heq⟩ := m.service.lookedUp_cases now id turn
      · obtain ⟨error, herror⟩ := hfails (.found full.response)
          (hstep ▸ (m.replies_followPut call _ call _).2 ⟨rfl, congrArg Prod.snd heq⟩)
        cases herror
      · rw [heq] at hstep
        exact .of_piece call hstep (.rfl _ now) rfl

/-- A piece of a call leaves no trace unless the call ends with it, other than by failing. -/
theorem traceless_of_call (h : m.service.Tidy) (hcall : event.call? = some call)
    (hfails : ∀ reply, .replies call reply ∈ (m.step now event).2 →
      ∃ error, reply = .failed error) : m.Traceless now event := by
  cases event with
  | publish c id record => exact .of_piece c rfl (h.publish now id record).2 rfl
  | get c id => exact .of_piece c rfl (h.get now id).2 rfl
  | store c turn =>
    cases hcall
    exact traceless_store hfails
  | lookup c turn =>
    cases hcall
    exact traceless_lookup hfails
  | put => cases hcall
  | purge => cases hcall

theorem untouched_purge (h : m.service.Tidy) (now : Nat) :
    m.Untouched (m.step now .purge).1 now :=
  ⟨⟨rfl, rfl, rfl, congrArg (List.filter _) (h.responses.live_purge now),
    h.negative.live_purge now⟩, rfl⟩

/-- Every event leaves the caches as their operations do. -/
theorem tidy_step (h : m.service.Tidy) (now : Nat) (event : ServiceEvent) :
    (m.step now event).1.service.Tidy := by
  refine ⟨?_, neat_step h.negative now event⟩
  cases event with
  | publish c id record =>
    simp only [step, follow_service]
    exact (h.publish now id record).1.responses
  | get c id =>
    simp only [step, follow_service]
    exact (h.get now id).1.responses
  | store c turn =>
    simp only [step]
    split
    · rename_i id record _
      rw [followPut_service]
      obtain ⟨e, -, heq⟩ | ⟨store, -, -, hcache, -⟩ := m.service.written_cases now id record turn
      · rw [heq]
        exact h.responses
      · rw [hcache]
        exact h.cache id record.response now
    · rename_i id _
      rw [followPut_service]
      obtain ⟨-, ⟨record, -, hcache, -⟩ | ⟨-, hsame, -⟩⟩ := m.service.readBack_cases now id turn
      · rw [hcache]
        exact h.cache id record.response now
      · rw [hsame]
        exact h.responses
    · exact h.responses
  | lookup c turn =>
    simp only [step]
    split
    · rename_i id _
      rw [follow_service]
      obtain ⟨full, -, -, heq⟩ | ⟨-, heq⟩ := m.service.lookedUp_cases now id turn
      · rw [heq]
        exact h.cache id full.response now
      · rw [heq]
        exact h.responses
    · exact h.responses
  | put number how =>
    simp only [step]
    split
    · cases how <;> exact h.responses
    · exact h.responses
  | purge =>
    show (m.service.responses.purge now).1.Neat
    rw [h.responses.purge_eq]
    exact h.responses.keep _

theorem tidy_after (h : m.service.Tidy) (history : History) : (m.after history).service.Tidy := by
  induction history with
  | nil => exact h
  | cons e past ih =>
    obtain ⟨now, event⟩ := e
    exact tidy_step ih now event

/-! ## 4. Whole calls -/

/-- What happens from the beginning of a call on, the last event first, while the call waits and up
    to the event with which it ends. Between its pieces there may be others. -/
inductive CallRun (m : ServiceMachine) (call : Nat) : History → Prop where
  | begins {now : Nat} {event : ServiceEvent} (h : event.begins? = some call) :
    CallRun m call [(now, event)]
  | goesOn {past : History} (h : CallRun m call past)
      (hwaits : (m.after past).waiting? call ≠ none) {now : Nat} {event : ServiceEvent}
      (hno : event.begins? ≠ some call) : CallRun m call ((now, event) :: past)

/-- Only the last event of a call can reply to it. -/
theorem CallRun.waits {history : History} (h : m.CallRun call history) {later earlier : History}
    {moment : Nat × ServiceEvent} (hsplit : history = later ++ moment :: earlier)
    (hlater : later ≠ []) : (m.after (moment :: earlier)).waiting? call ≠ none := by
  induction h generalizing later with
  | begins =>
    cases later with
    | nil => exact absurd rfl hlater
    | cons last rest =>
      have hlen := congrArg List.length hsplit
      simp at hlen
  | goesOn _ hwaits _ ih =>
    cases later with
    | nil => exact absurd rfl hlater
    | cons last rest =>
      obtain ⟨-, hpast⟩ := List.cons.inj hsplit
      cases rest with
      | nil =>
        obtain rfl : _ = moment :: earlier := hpast
        exact hwaits
      | cons next rest => exact ih hpast (List.cons_ne_nil _ _)

/-- A reply is to the call of the event. -/
theorem call?_of_replies {reply : Reply} (h : .replies call reply ∈ (m.step now event).2) :
    event.call? = some call := by
  cases event with
  | publish c id record => rw [(replies_follow.1 h).1]; rfl
  | get c id => rw [(replies_follow.1 h).1]; rfl
  | store c turn =>
    simp only [step] at h
    split at h
    · rw [((m.replies_followPut c _ call reply).1 h).1]; rfl
    · rw [((m.replies_followPut c _ call reply).1 h).1]; rfl
    · cases h
  | lookup c turn =>
    simp only [step] at h
    split at h
    · rw [(replies_follow.1 h).1]; rfl
    · cases h
  | put number how =>
    simp only [step] at h
    split at h <;> cases h
  | purge => cases h

/-- An event replies at most once. -/
theorem reply_unique {reply other : Reply} (h : .replies call reply ∈ (m.step now event).2)
    (ho : .replies call other ∈ (m.step now event).2) : other = reply := by
  obtain ⟨c, next, hran⟩ | hidle := m.step_cases now event
  · have hnext := ((hran.replies _ _).1 h).2
    have hother := ((hran.replies _ _).1 ho).2
    cases hother.symm.trans hnext
    rfl
  · exact absurd h (hidle.replies _ _)

/-- All pieces of a call that fails leave no trace. -/
theorem CallRun.traceless (htidy : m.service.Tidy) {during : History}
    (h : m.CallRun call ((now, event) :: during)) {error : ServiceError}
    (hfails : .replies call (.failed error) ∈ ((m.after during).step now event).2)
    {later earlier : History} {moment : Nat} {piece : ServiceEvent}
    (hsplit : (now, event) :: during = later ++ (moment, piece) :: earlier)
    (hpiece : piece.call? = some call) : (m.after earlier).Traceless moment piece := by
  refine traceless_of_call (tidy_after htidy earlier) hpiece fun reply hreply => ?_
  cases later with
  | nil =>
    cases hsplit
    exact ⟨error, reply_unique hfails hreply⟩
  | cons last rest =>
    have hwaits := h.waits hsplit (List.cons_ne_nil _ _)
    exact absurd (ended_of_replies hreply).2 hwaits

/-- Where all events leave all as it is, the whole history does, up to what has expired. -/
theorem untouched_after {history : History} (htime : History.Timely ((now, event) :: history))
    (h : ∀ later moment piece earlier,
      (now, event) :: history = later ++ (moment, piece) :: earlier →
      (m.after earlier).Untouched ((m.after earlier).step moment piece).1 moment) :
    m.Untouched (m.after ((now, event) :: history)) now := by
  have hlast := h [] now event history rfl
  induction history generalizing now event with
  | nil => exact hlast
  | cons e past ih =>
    obtain ⟨before, previous⟩ := e
    obtain ⟨hnow, hpast⟩ := List.pairwise_cons.1 htime
    have hfirst := ih hpast
      (fun later moment piece earlier hsplit => h ((now, event) :: later) moment piece earlier
        (congrArg _ hsplit))
      (h [(now, event)] before previous past rfl)
    have hle : before ≤ now := hnow _ List.mem_cons_self
    exact ⟨(hfirst.service.later hle).trans hlast.service, hlast.puts.trans hfirst.puts⟩

end ServiceMachine

open ServiceMachine

/-- Whatever else is going on in a service, every piece of a call that fails leaves all that can be
    read of the service as it is: the records and the ledger of failures, the counts of puts, what
    is live and legible in the cache of responses, what is live among the marks of missing ids, and
    the puts that are under way. It starts no put and marks no id as missing. So if there is nothing
    else but purges between the pieces, the service is after the call as it was before, except that
    entries have expired. -/
theorem failed_calls_traceless (s : Service) (htidy : s.Tidy) (before during : History)
    (call now : Nat) (event : ServiceEvent) (error : ServiceError)
    (hrun : ((ofService s).after before).CallRun call ((now, event) :: during))
    (hfails : .replies call (.failed error) ∈
      ((((ofService s).after before).after during).step now event).2) :
    (∀ later moment piece earlier, (now, event) :: during = later ++ (moment, piece) :: earlier →
      piece.call? = some call → (((ofService s).after before).after earlier).Traceless moment
        piece) ∧
    (History.Timely ((now, event) :: during) →
      (∀ e ∈ during, e.2.call? = some call ∨ e.2 = .purge) →
      ((ofService s).after before).Untouched
        (((ofService s).after before).after ((now, event) :: during)) now) := by
  have hbefore : ((ofService s).after before).service.Tidy := tidy_after htidy before
  have hpieces : ∀ later moment piece earlier,
      (now, event) :: during = later ++ (moment, piece) :: earlier → piece.call? = some call →
        (((ofService s).after before).after earlier).Traceless moment piece :=
    fun later moment piece earlier hsplit hpiece => hrun.traceless hbefore hfails hsplit hpiece
  refine ⟨hpieces, fun htime hothers => untouched_after htime ?_⟩
  intro later moment piece earlier hsplit
  have hwhich : piece.call? = some call ∨ piece = .purge := by
    cases later with
    | nil =>
      cases hsplit
      exact .inl (call?_of_replies hfails)
    | cons last rest =>
      have hduring : during = rest ++ (moment, piece) :: earlier := (List.cons.inj hsplit).2
      exact hothers (moment, piece) (by simp [hduring])
  rcases hwhich with hown | rfl
  · exact (hpieces later moment piece earlier hsplit hown).untouched
  · exact untouched_purge (tidy_after hbefore earlier) moment

/-- A get drops a mark that has expired and octets that are no response, looks in vain in the DHT,
    during which there is a purge, and then the store fails: the caches are no longer the same, and
    nobody can tell. -/
theorem failed_calls_traceless_of_corrupt :
    ∃ (s : Service) (during : History) (event : ServiceEvent) (error : ServiceError),
      .replies 0 (.failed error) ∈ (((ofService s).after during).step 4 event).2 ∧
        ((ofService s).after ((4, event) :: during)).service.responses.entries.length = 1 ∧
        s.responses.entries.length = 2 ∧
        (ofService s).Untouched ((ofService s).after ((4, event) :: during)) 4 := by
  let id := recordId neutralKey
  let corrupt : CacheEntry := ⟨id, [0], 9⟩
  let other : CacheEntry := ⟨(Record.ofOctet 2).id, (Record.ofOctet 2).toWire, 9⟩
  let mark : CacheEntry := ⟨id, missingMark, 1⟩
  let start : Service := .fresh .standard (.memory .empty)
  let s : Service :=
    { start with
      responses := { start.responses with
        entries := [corrupt, other], bytes := TtlCache.octetsOf [corrupt, other] }
      negative := { start.negative with
        entries := [mark], bytes := TtlCache.octetsOf [mark] } }
  have htidy : s.Tidy := by
    refine ⟨⟨?_, rfl⟩, ⟨List.pairwise_singleton _ _, rfl⟩⟩
    exact List.pairwise_pair.2 (by decide +kernel)
  let during : History := [(3, .purge), (2, .lookup 0 .timesOut), (1, .get 0 id)]
  let event : ServiceEvent := .store 0 (.fails "disk")
  have hrun : (ofService s).CallRun 0 ((4, event) :: during) :=
    .goesOn (.goesOn (.goesOn (.begins rfl) (by decide +kernel) (by decide)) (by decide +kernel)
      (by decide)) (by decide +kernel) (by decide)
  have hfails : .replies 0 (.failed (.store (.unavailable "disk"))) ∈
      (((ofService s).after during).step 4 event).2 := by
    decide +kernel
  obtain ⟨-, huntouched⟩ :=
    failed_calls_traceless s htidy [] during 0 4 event _ hrun hfails
  refine ⟨s, during, event, _, hfails, by decide +kernel, rfl, huntouched ?_ ?_⟩
  · unfold History.Timely
    decide
  · simp [during, ServiceEvent.call?]

end SignedRecords
