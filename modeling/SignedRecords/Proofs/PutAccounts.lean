import SignedRecords.Proofs.NeutralKey
import SignedRecords.Proofs.ServiceRuns
import SignedRecords.Simulation.Transport

/-!
# Accounts of puts in the background

A put in the background is started by a publish whose record the store has taken, or by a get that
the store has answered, and by nothing else. Each has a number of its own, ends at most once, and is
counted when it ends, in whatever order: so what has been counted and what has not ended are as many
as these replies. A put that is granted a time is counted as acknowledged only if the transport has
acknowledged it within that time. A record whose response is live in the cache can be published
again as often as one likes: nothing is written and no put is started.

Main statement: `ServiceMachine.puts_add_up`.
-/

namespace SignedRecords

/-! ## 1. What a history says of puts -/

/-- A put that was started. -/
structure StartedPut where
  number : Nat
  start : Nat
  deriving DecidableEq

/-- A put that has ended. -/
structure EndedPut where
  number : Nat
  moment : Nat
  how : PutEnd
  deriving DecidableEq

namespace Reply

/-- Whether a record was published. -/
def isPublished : Reply → Bool
  | published => true
  | _ => false

/-- Whether a response was found. -/
def isFound : Reply → Bool
  | found _ => true
  | _ => false

/-- Whether a reply is a success. -/
def isSuccess (r : Reply) : Bool := r.isPublished || r.isFound

theorem countP_isSuccess (told : List Reply) :
    told.countP (·.isSuccess) = told.countP (·.isPublished) + told.countP (·.isFound) := by
  induction told with
  | nil => rfl
  | cons r rest ih =>
    simp only [List.countP_cons, ih]
    cases r <;> simp [isSuccess, isPublished, isFound] <;> omega

end Reply

namespace ServiceAction

/-- The put that is started at a time. -/
def started? (now : Nat) : ServiceAction → Option StartedPut
  | .puts number _ => some ⟨number, now⟩
  | _ => none

/-- The reply that is given. -/
def reply? : ServiceAction → Option Reply
  | .replies _ reply => some reply
  | _ => none

end ServiceAction

namespace ServiceMachine

/-- The put that an event ends. -/
def ends? (m : ServiceMachine) (now : Nat) : ServiceEvent → Option EndedPut
  | .put number how => if m.puts.any (·.1 == number) then some ⟨number, now, how⟩ else none
  | _ => none

/-- The replies that calls get when the store has had its turn: a publish is past the cache then,
    and a get past the DHT. -/
def storeReplies (m : ServiceMachine) (now : Nat) : ServiceEvent → List Reply
  | .store call turn => (m.step now (.store call turn)).2.filterMap (·.reply?)
  | _ => []

/-- The puts that were started in a history, the last first. -/
def startedIn (m : ServiceMachine) : History → List StartedPut
  | [] => []
  | (now, event) :: past =>
    ((m.after past).step now event).2.filterMap (·.started? now) ++ m.startedIn past

/-- The puts that have ended in a history, the last first. -/
def endedIn (m : ServiceMachine) : History → List EndedPut
  | [] => []
  | (now, event) :: past => ((m.after past).ends? now event).toList ++ m.endedIn past

/-- What calls were told in a history after the store had its turn, the last first. -/
def storeRepliesIn (m : ServiceMachine) : History → List Reply
  | [] => []
  | (now, event) :: past => (m.after past).storeReplies now event ++ m.storeRepliesIn past

end ServiceMachine

/-! ## 2. Counters -/

namespace Service

/-- The counters of puts are the same. -/
structure SameCounts (s s' : Service) : Prop where
  succeeded : s'.putsSucceeded = s.putsSucceeded
  failed : s'.putsFailed = s.putsFailed

theorem SameCounts.rfl (s : Service) : s.SameCounts s := ⟨Eq.refl _, Eq.refl _⟩

theorem sameCounts_cache (s : Service) (id : String) (r : Response) (now : Nat) :
    s.SameCounts (s.cache id r now) := by
  unfold cache
  split
  · exact ⟨Eq.refl _, Eq.refl _⟩
  · exact .rfl s

theorem sameCounts_markMissing (s : Service) (id : String) (now : Nat) :
    s.SameCounts (s.markMissing id now) := by
  unfold markMissing
  split
  · exact ⟨Eq.refl _, Eq.refl _⟩
  · exact .rfl s

theorem sameCounts_publish (s : Service) (now : Nat) (id : String) (record : Record) :
    s.SameCounts (s.publish now id record).1 := by
  unfold publish
  split
  · exact .rfl s
  · split
    · exact .rfl s
    · split
      · exact .rfl s
      · dsimp only
        split
        · exact ⟨Eq.refl _, Eq.refl _⟩
        · exact ⟨Eq.refl _, Eq.refl _⟩

theorem sameCounts_get (s : Service) (now : Nat) (id : String) :
    s.SameCounts (s.get now id).1 := by
  unfold get
  split
  · exact .rfl s
  · dsimp only
    split
    · exact ⟨Eq.refl _, Eq.refl _⟩
    · split
      · exact ⟨Eq.refl _, Eq.refl _⟩
      · exact ⟨Eq.refl _, Eq.refl _⟩

theorem sameCounts_lookedUp (s : Service) (now : Nat) (id : String) (turn : LookupTurn) :
    s.SameCounts (s.lookedUp now id turn).1 := by
  obtain ⟨full, -, -, heq⟩ | ⟨-, heq⟩ := s.lookedUp_cases now id turn
  · rw [heq]
    exact sameCounts_cache s id full.response now
  · rw [heq]
    exact .rfl s

theorem sameCounts_written (s : Service) (now : Nat) (id : String) (record : Record)
    (turn : StoreTurn) : s.SameCounts (s.written now id record turn).1 := by
  unfold written
  split
  · exact .rfl s
  · rename_i store _
    have h := sameCounts_cache { s with store } id record.response now
    exact ⟨h.succeeded, h.failed⟩

theorem sameCounts_readBack (s : Service) (now : Nat) (id : String) (turn : StoreTurn) :
    s.SameCounts (s.readBack now id turn).1 := by
  unfold readBack
  split
  · exact .rfl s
  · exact sameCounts_markMissing s id now
  · exact sameCounts_cache s id _ now

/-- The end of a call that comes with a put if it is a success, and without one if not. -/
def EndsWithPut (next : CallStep × Option Record) : Prop :=
  (∃ reply, reply.isSuccess = false ∧ next = (.replies reply, none)) ∨
    ∃ reply record, reply.isSuccess = true ∧ next = (.replies reply, some record)

theorem put_of_written (s : Service) (now : Nat) (id : String) (record : Record)
    (turn : StoreTurn) : EndsWithPut (s.written now id record turn).2 := by
  obtain ⟨e, -, heq⟩ | ⟨store, -, -, -, heq⟩ := s.written_cases now id record turn
  · exact .inl ⟨.failed (.store e), Eq.refl _, by rw [heq]⟩
  · exact .inr ⟨.published, record, Eq.refl _, heq⟩

theorem put_of_readBack (s : Service) (now : Nat) (id : String) (turn : StoreTurn) :
    EndsWithPut (s.readBack now id turn).2 := by
  unfold readBack
  split
  · exact .inl ⟨_, Eq.refl _, Eq.refl _⟩
  · exact .inl ⟨_, Eq.refl _, Eq.refl _⟩
  · exact .inr ⟨_, _, Eq.refl _, Eq.refl _⟩

end Service

namespace ServiceMachine

variable {m : ServiceMachine} {now : Nat} {event : ServiceEvent}

/-! ## 3. One event -/

/-- An event that starts a put: the store has its turn, and the call is told a success. -/
structure Starts (m : ServiceMachine) (now : Nat) (event : ServiceEvent) (record : Record) :
    Prop where
  puts : (m.step now event).1.puts = m.puts ++ [(m.nextPut, record)]
  nextPut : (m.step now event).1.nextPut = m.nextPut + 1
  counts : m.service.SameCounts (m.step now event).1.service
  started : (m.step now event).2.filterMap (·.started? now) = [⟨m.nextPut, now⟩]
  ended : m.ends? now event = none
  told : ∃ reply, reply.isSuccess = true ∧ m.storeReplies now event = [reply]

/-- An event that ends a put. -/
structure Ends (m : ServiceMachine) (now : Nat) (event : ServiceEvent) (e : EndedPut) : Prop where
  mem : m.puts.any (·.1 == e.number) = true
  puts : (m.step now event).1.puts = m.puts.filter (·.1 != e.number)
  nextPut : (m.step now event).1.nextPut = m.nextPut
  service : (m.step now event).1.service = settlePut m.service e.how
  started : (m.step now event).2.filterMap (·.started? now) = []
  ended : m.ends? now event = some e
  told : m.storeReplies now event = []

/-- An event that neither starts nor ends a put: no call is told a success of the store. -/
structure Passes (m : ServiceMachine) (now : Nat) (event : ServiceEvent) : Prop where
  puts : (m.step now event).1.puts = m.puts
  nextPut : (m.step now event).1.nextPut = m.nextPut
  counts : m.service.SameCounts (m.step now event).1.service
  started : (m.step now event).2.filterMap (·.started? now) = []
  ended : m.ends? now event = none
  told : ∀ reply ∈ m.storeReplies now event, reply.isSuccess = false

/-- What an event does to the puts in the background. -/
inductive PutEffect (m : ServiceMachine) (now : Nat) (event : ServiceEvent) : Prop where
  | starts (record : Record) (h : Starts m now event record)
  | ends (e : EndedPut) (h : Ends m now event e)
  | passes (h : Passes m now event)

theorem told_nothing (h : m.storeReplies now event = []) :
    ∀ reply ∈ m.storeReplies now event, reply.isSuccess = false := by
  intro reply hreply
  rw [h] at hreply
  cases hreply

/-- A piece of a call without a put starts none. -/
theorem Passes.of_follow {call : Nat} {s : Service} {next : CallStep}
    (hstep : m.step now event = m.follow call s next) (hcounts : m.service.SameCounts s)
    (hended : m.ends? now event = none)
    (htold : ∀ reply ∈ m.storeReplies now event, reply.isSuccess = false) :
    Passes m now event := by
  refine ⟨?_, ?_, ?_, ?_, hended, htold⟩ <;> rw [hstep] <;> cases next
  · rfl
  · rfl
  · rfl
  · rfl
  · exact hcounts
  · exact hcounts
  · rfl
  · rfl

/-- An event without a piece starts no put. -/
theorem Passes.of_same (hstep : m.step now event = (m, [])) (hended : m.ends? now event = none) :
    Passes m now event := by
  have htold : m.storeReplies now event = [] := by
    cases event with
    | store call turn =>
      rw [storeReplies, hstep]
      rfl
    | _ => rfl
  refine ⟨?_, ?_, ?_, ?_, hended, told_nothing htold⟩ <;> rw [hstep]
  · exact .rfl _
  · rfl

/-- A turn of the store that fails, or finds nothing, starts no put; another one starts one. -/
theorem PutEffect.of_turn {call : Nat} {turn : StoreTurn}
    {piece : Service × CallStep × Option Record}
    (hstep : m.step now (.store call turn) = m.followPut call piece)
    (hcounts : m.service.SameCounts piece.1) (hpiece : Service.EndsWithPut piece.2) :
    PutEffect m now (.store call turn) := by
  obtain ⟨s, next, put⟩ := piece
  rcases hpiece with ⟨reply, hreply, heq⟩ | ⟨reply, record, hreply, heq⟩
  · obtain ⟨rfl, rfl⟩ := Prod.mk.inj heq
    have hfollow : m.step now (.store call turn) = m.follow call s (.replies reply) := hstep
    refine .passes (.of_follow hfollow hcounts rfl fun r hr => ?_)
    rw [storeReplies, hstep] at hr
    obtain rfl : r = reply := List.mem_singleton.1 hr
    exact hreply
  · obtain ⟨rfl, rfl⟩ := Prod.mk.inj heq
    refine .starts record ⟨?_, ?_, ?_, ?_, rfl, reply, hreply, ?_⟩
    · rw [hstep]
      rfl
    · rw [hstep]
      rfl
    · rw [hstep]
      exact hcounts
    · rw [hstep]
      rfl
    · rw [storeReplies, hstep]
      rfl

/-- Every event starts a put, ends one, or passes them by. -/
theorem putEffect (m : ServiceMachine) (now : Nat) (event : ServiceEvent) :
    PutEffect m now event := by
  cases event with
  | publish call id record =>
    exact .passes (.of_follow rfl (m.service.sameCounts_publish now id record) rfl
      (told_nothing rfl))
  | get call id =>
    exact .passes (.of_follow rfl (m.service.sameCounts_get now id) rfl (told_nothing rfl))
  | store call turn =>
    rcases hw : m.waiting? call with _ | ⟨id, record⟩ | id | id
    · exact .passes (.of_same (by simp only [step, hw]) rfl)
    · exact .of_turn (by simp only [step, hw]) (m.service.sameCounts_written now id record turn)
        (m.service.put_of_written now id record turn)
    · exact .passes (.of_same (by simp only [step, hw]) rfl)
    · exact .of_turn (by simp only [step, hw]) (m.service.sameCounts_readBack now id turn)
        (m.service.put_of_readBack now id turn)
  | lookup call turn =>
    rcases hw : m.waiting? call with _ | ⟨id, record⟩ | id | id
    · exact .passes (.of_same (by simp only [step, hw]) rfl)
    · exact .passes (.of_same (by simp only [step, hw]) rfl)
    · have hstep : m.step now (.lookup call turn) = m.follow call
          (m.service.lookedUp now id turn).1 (m.service.lookedUp now id turn).2 := by
        simp only [step, hw]
      exact .passes (.of_follow hstep (m.service.sameCounts_lookedUp now id turn) rfl
        (told_nothing rfl))
    · exact .passes (.of_same (by simp only [step, hw]) rfl)
  | put number how =>
    by_cases hmem : m.puts.any (·.1 == number) = true
    · have hstep : m.step now (.put number how) = ({ m with
          service := settlePut m.service how
          puts := m.puts.filter (·.1 != number) }, []) := by
        rw [step, if_pos hmem]
      refine .ends ⟨number, now, how⟩ ⟨hmem, ?_, ?_, ?_, ?_, if_pos hmem, rfl⟩ <;> rw [hstep]
      rfl
    · exact .passes (.of_same (by rw [step, if_neg hmem]) (if_neg hmem))
  | purge => exact .passes ⟨rfl, rfl, ⟨rfl, rfl⟩, rfl, rfl, told_nothing rfl⟩

end ServiceMachine

/-! ## 4. Runs -/

/-- What the puts of a service come to after a history: they are numbered in the order of their
    starts, each has ended once or not at all, and each was started for a call that the store has
    made a success. -/
structure PutAccounts (start : ServiceMachine) (history : History) : Prop where
  numbered : (start.startedIn history).map (·.number) =
    (List.range (start.after history).nextPut).reverse
  parted : ((start.endedIn history).map (·.number) ++ (start.after history).puts.map (·.1)).Perm
    (List.range (start.after history).nextPut)
  told : (start.storeRepliesIn history).countP (·.isSuccess) = (start.after history).nextPut
  succeeded : (start.after history).service.putsSucceeded =
    (start.endedIn history).countP (·.how == .acknowledged)
  failed : (start.after history).service.putsFailed =
    (start.endedIn history).countP (·.how == .failed)

namespace PutAccounts

variable {start : ServiceMachine} {history : History} {now : Nat} {event : ServiceEvent}

theorem ofService {s : Service} (hsucceeded : s.putsSucceeded = 0) (hfailed : s.putsFailed = 0) :
    PutAccounts (.ofService s) [] :=
  ⟨rfl, .refl _, rfl, hsucceeded, hfailed⟩

/-- Numbers are given once, so taking out the put with a number takes out one. -/
theorem perm_settled (h : PutAccounts start history) {number : Nat}
    (hmem : (start.after history).puts.any (·.1 == number) = true) :
    ((start.after history).puts.map (·.1)).Perm
      (number :: ((start.after history).puts.filter (·.1 != number)).map (·.1)) := by
  have hnodup : ((start.after history).puts.map (·.1)).Nodup :=
    (List.nodup_append.1 (h.parted.nodup_iff.2 List.nodup_range)).2.1
  have herase : ((start.after history).puts.filter (·.1 != number)).map (·.1) =
      ((start.after history).puts.map (·.1)).erase number := by
    rw [hnodup.erase_eq_filter, List.filter_map]
    rfl
  obtain ⟨put, hput, hnumber⟩ := List.any_eq_true.1 hmem
  rw [herase]
  exact List.perm_cons_erase (List.mem_map.2 ⟨put, hput, eq_of_beq hnumber⟩)

theorem of_starts (h : PutAccounts start history) {record : Record}
    (hs : (start.after history).Starts now event record) :
    PutAccounts start ((now, event) :: history) := by
  have hended : start.endedIn ((now, event) :: history) = start.endedIn history := by
    rw [ServiceMachine.endedIn, hs.ended]
    rfl
  have hafter : start.after ((now, event) :: history) =
      ((start.after history).step now event).1 := rfl
  constructor
  · rw [ServiceMachine.startedIn, hs.started, List.map_append, h.numbered, hafter, hs.nextPut,
      List.range_succ, List.reverse_append]
    rfl
  · rw [hended, hafter, hs.puts, hs.nextPut, List.map_append, ← List.append_assoc,
      List.range_succ]
    exact h.parted.append_right _
  · obtain ⟨reply, hreply, htold⟩ := hs.told
    rw [ServiceMachine.storeRepliesIn, htold, List.countP_append, h.told, hafter, hs.nextPut,
      List.countP_singleton, if_pos hreply, Nat.add_comm]
  · rw [hended, hafter, hs.counts.succeeded, h.succeeded]
  · rw [hended, hafter, hs.counts.failed, h.failed]

theorem of_ends (h : PutAccounts start history) {e : EndedPut}
    (he : (start.after history).Ends now event e) :
    PutAccounts start ((now, event) :: history) := by
  have hended : start.endedIn ((now, event) :: history) = e :: start.endedIn history := by
    rw [ServiceMachine.endedIn, he.ended]
    rfl
  have hafter : start.after ((now, event) :: history) =
      ((start.after history).step now event).1 := rfl
  constructor
  · rw [ServiceMachine.startedIn, he.started, hafter, he.nextPut]
    exact h.numbered
  · rw [hended, hafter, he.puts, he.nextPut]
    -- The number moves from the puts that have not ended to those that have.
    exact (List.perm_middle.symm.trans ((h.perm_settled he.mem).symm.append_left _)).trans h.parted
  · rw [ServiceMachine.storeRepliesIn, he.told, hafter, he.nextPut]
    exact h.told
  · rw [hended, hafter, he.service, List.countP_cons, ← h.succeeded]
    cases e.how <;> rfl
  · rw [hended, hafter, he.service, List.countP_cons, ← h.failed]
    cases e.how <;> rfl

theorem of_passes (h : PutAccounts start history)
    (hp : (start.after history).Passes now event) :
    PutAccounts start ((now, event) :: history) := by
  have hended : start.endedIn ((now, event) :: history) = start.endedIn history := by
    rw [ServiceMachine.endedIn, hp.ended]
    rfl
  have hafter : start.after ((now, event) :: history) =
      ((start.after history).step now event).1 := rfl
  constructor
  · rw [ServiceMachine.startedIn, hp.started, hafter, hp.nextPut]
    exact h.numbered
  · rw [hended, hafter, hp.puts, hp.nextPut]
    exact h.parted
  · have hnone : ((start.after history).storeReplies now event).countP (·.isSuccess) = 0 :=
      List.countP_eq_zero.2 fun reply hreply => by simp [hp.told reply hreply]
    rw [ServiceMachine.storeRepliesIn, List.countP_append, hnone, hafter, hp.nextPut, h.told,
      Nat.zero_add]
  · rw [hended, hafter, hp.counts.succeeded, h.succeeded]
  · rw [hended, hafter, hp.counts.failed, h.failed]

/-- The accounts are right after every history. -/
theorem after (h : PutAccounts start []) (history : History) : PutAccounts start history := by
  induction history with
  | nil => exact h
  | cons e past ih =>
    obtain ⟨now, event⟩ := e
    cases (start.after past).putEffect now event with
    | starts record hs => exact ih.of_starts hs
    | ends e he => exact ih.of_ends he
    | passes hp => exact ih.of_passes hp

end PutAccounts

/-! ## 5. Puts that are granted a time -/

namespace Simulation.ScriptEntry

/-- When and how a put ends that is granted a time, if this is what the transport does with it: an
    end that comes when the time is up is still in time. -/
def ending (granted : Nat) (entry : ScriptEntry) : Nat × PutEnd :=
  match entry.result.putEnd? with
  | some how => if entry.delay ≤ granted then (entry.delay, how) else (granted, .failed)
  | none => (granted, .failed)

/-- The transport acknowledges a put within a time. -/
def AcknowledgesIn (granted : Nat) (entry : ScriptEntry) : Prop :=
  entry.result.putEnd? = some .acknowledged ∧ entry.delay ≤ granted

instance (granted : Nat) : DecidablePred (AcknowledgesIn granted) :=
  fun entry => inferInstanceAs (Decidable (_ = _ ∧ entry.delay ≤ granted))

theorem ending_acknowledged {granted : Nat} {entry : ScriptEntry} :
    (entry.ending granted).2 = .acknowledged ↔ entry.AcknowledgesIn granted := by
  unfold ending AcknowledgesIn
  rcases entry.result.putEnd? with _ | how
  · simp
  · by_cases hdelay : entry.delay ≤ granted <;> simp [hdelay]

theorem ending_le (granted : Nat) (entry : ScriptEntry) : (entry.ending granted).1 ≤ granted := by
  unfold ending
  split
  · split
    · assumption
    · exact Nat.le_refl granted
  · exact Nat.le_refl granted

end Simulation.ScriptEntry

/-- Every put is granted a time, and when it has ended, it was either the transport or the time that
    ended it, whichever came first. -/
structure Punctual (start : ServiceMachine) (granted : Nat)
    (carriage : Nat → Simulation.ScriptEntry) (history : History) : Prop where
  moment : ∀ s ∈ start.startedIn history, ∀ e ∈ start.endedIn history, e.number = s.number →
    e.moment = s.start + ((carriage s.number).ending granted).1
  how : ∀ s ∈ start.startedIn history, ∀ e ∈ start.endedIn history, e.number = s.number →
    e.how = ((carriage s.number).ending granted).2

namespace PutAccounts

variable {start : ServiceMachine} {history : History} {granted : Nat}
  {carriage : Nat → Simulation.ScriptEntry}

/-- What has ended was started. -/
theorem exists_started (h : PutAccounts start history) {e : EndedPut}
    (he : e ∈ start.endedIn history) : ∃ s ∈ start.startedIn history, s.number = e.number := by
  have hnumber : e.number ∈ List.range (start.after history).nextPut :=
    h.parted.mem_iff.1 (List.mem_append_left _ (List.mem_map_of_mem he))
  rw [← List.mem_reverse, ← h.numbered] at hnumber
  exact List.mem_map.1 hnumber

/-- A put is acknowledged exactly if the transport has acknowledged it in time. -/
theorem acknowledged_iff (h : PutAccounts start history)
    (hp : Punctual start granted carriage history) {e : EndedPut}
    (he : e ∈ start.endedIn history) :
    e.how = .acknowledged ↔ (carriage e.number).AcknowledgesIn granted := by
  obtain ⟨s, hs, hnumber⟩ := h.exists_started he
  rw [hp.how s hs e he hnumber.symm, hnumber]
  exact Simulation.ScriptEntry.ending_acknowledged

/-- No put lasts longer than it is granted. -/
theorem moment_le (h : PutAccounts start history) (hp : Punctual start granted carriage history)
    {e : EndedPut} (he : e ∈ start.endedIn history) :
    ∃ s ∈ start.startedIn history, s.number = e.number ∧ e.moment ≤ s.start + granted := by
  obtain ⟨s, hs, hnumber⟩ := h.exists_started he
  refine ⟨s, hs, hnumber, ?_⟩
  rw [hp.moment s hs e he hnumber.symm]
  exact Nat.add_le_add_left (Simulation.ScriptEntry.ending_le granted _) _

theorem succeeded_of_punctual (h : PutAccounts start history)
    (hp : Punctual start granted carriage history) :
    (start.after history).service.putsSucceeded =
      (start.endedIn history).countP fun e => (carriage e.number).AcknowledgesIn granted := by
  rw [h.succeeded]
  refine List.countP_congr fun e he => ?_
  rw [beq_iff_eq, decide_eq_true_iff]
  exact h.acknowledged_iff hp he

/-- Of the puts that have ended and are not lost, each is counted once. -/
theorem length_ended (h : PutAccounts start history)
    (hsound : ∀ e ∈ start.endedIn history, e.how ≠ .lost) :
    (start.endedIn history).length = (start.after history).service.putsSucceeded +
      (start.after history).service.putsFailed := by
  have hfailed : (start.endedIn history).countP (·.how == .failed) =
      (start.endedIn history).countP fun e => ¬ (e.how == .acknowledged) = true := by
    refine List.countP_congr fun e he => ?_
    have hlost := hsound e he
    rcases how : e.how with _ | _ | _
    · decide
    · decide
    · exact absurd how hlost
  rw [h.succeeded, h.failed, hfailed]
  exact List.length_eq_countP_add_countP fun e : EndedPut => e.how == .acknowledged

end PutAccounts

/-! ## 6. Publishing again -/

namespace Service

variable {s : Service} {record : Record} {now expiry : Nat}

/-- The response of a record is cached, and is live before a time. -/
def CachedUntil (s : Service) (record : Record) (expiry : Nat) : Prop :=
  ∃ entry, s.responses.find? record.id = some entry ∧ entry.expiresAt = expiry ∧
    Response.ofBytes entry.value = .ok record.response

theorem CachedUntil.cached (h : s.CachedUntil record expiry) (hnow : now < expiry) :
    s.cached record.id now = (s, some record.response) := by
  obtain ⟨entry, hfind, hexpiry, hread⟩ := h
  have hlive : entry.isLive now = true := decide_eq_true (hexpiry ▸ hnow)
  simp only [Service.cached, TtlCache.response, TtlCache.get, hfind, hlive, if_true, hread]

/-- A publish of a record whose response is live ends at once and changes nothing. -/
theorem CachedUntil.publish (h : s.CachedUntil record expiry) (hnow : now < expiry) (id : String) :
    ∃ reply, s.publish now id record = (s, .replies reply) ∧
      (record.validate = .ok () → readId id = .ok (record.key, record.id) →
        reply = .published) := by
  rcases hid : readId id with e | ⟨key, canonical⟩
  · refine ⟨.failed e, by simp only [Service.publish, hid], fun _ h => ?_⟩
    cases h
  · by_cases hkey : key = record.key
    · subst hkey
      obtain rfl : canonical = record.id := by
        unfold readId at hid
        split at hid
        · cases hid
          rfl
        · cases hid
      rcases hvalid : record.validate with e | ⟨⟩
      · refine ⟨.failed (.invalidRecord e), ?_, fun h => ?_⟩
        · simp only [Service.publish, hid, hvalid, ne_eq, not_true_eq_false, if_false]
        · cases h
      · refine ⟨.published, ?_, fun _ _ => rfl⟩
        simp only [Service.publish, hid, hvalid, ne_eq, not_true_eq_false, if_false,
          h.cached hnow, if_true]
    · refine ⟨.failed (.otherRecord canonical), ?_, fun _ h => ?_⟩
      · simp only [Service.publish, hid, ne_eq, hkey, not_false_eq_true, if_true]
      · cases h
        exact absurd rfl hkey

end Service

namespace ServiceMachine

/-- Publishes of a record before a time, under any ids. -/
def Republishes (record : Record) (expiry : Nat) (again : History) : Prop :=
  ∀ e ∈ again, e.1 < expiry ∧ ∃ call id, e.2 = .publish call id record

variable {m : ServiceMachine} {record : Record} {expiry : Nat}

/-- One publish of a record whose response is live: the call ends at once, and nothing else is
    changed. -/
theorem step_again (h : m.service.CachedUntil record expiry) {now : Nat} (hnow : now < expiry)
    (call : Nat) (id : String) : ∃ reply,
      m.step now (.publish call id record) =
        ({ m with calls := m.calls.filter (·.1 != call) }, [.replies call reply]) ∧
      (record.validate = .ok () → readId id = .ok (record.key, record.id) →
        reply = .published) := by
  obtain ⟨reply, hpublish, hreply⟩ := h.publish hnow id
  exact ⟨reply, by simp only [step, hpublish, follow], hreply⟩

/-- Any number of them: the store and the counters stay, no call waits for the store, and no put is
    started. -/
theorem after_again (h : m.service.CachedUntil record expiry) (again : History)
    (hagain : Republishes record expiry again) :
    (∃ calls, calls.Sublist m.calls ∧ m.after again = { m with calls }) ∧
      m.startedIn again = [] := by
  induction again with
  | nil => exact ⟨⟨m.calls, .refl _, rfl⟩, rfl⟩
  | cons e past ih =>
    obtain ⟨now, event⟩ := e
    obtain ⟨⟨calls, hcalls, hafter⟩, hstarted⟩ := ih fun e he => hagain e (.tail _ he)
    obtain ⟨hnow, call, id, hevent⟩ := hagain _ List.mem_cons_self
    have hlive : (m.after past).service.CachedUntil record expiry := by
      rw [hafter]
      exact h
    obtain ⟨reply, hstep, -⟩ := step_again hlive hnow call id
    constructor
    · refine ⟨calls.filter (·.1 != call), List.filter_sublist.trans hcalls, ?_⟩
      rw [after, show event = .publish call id record from hevent, hstep, hafter]
    · rw [startedIn, show event = .publish call id record from hevent, hstep, hstarted]
      rfl

/-! ## 7. The accounts -/

/-- In every run of a service that has counted nothing yet, whatever is in its store and caches and
    however its puts and the pieces of its calls are interleaved: if no put is lost, the puts that
    were counted and those that have not ended are as many as the publishes past the cache and the
    gets from the store that were a success; each put has ended once or not at all; if each is
    granted the time that the settings say, those counted as acknowledged are those that the
    transport has acknowledged within it; and while the response of a record is live, publishing it
    again succeeds and leaves everything but the call as it is. -/
theorem puts_add_up (service : Service) (hsucceeded : service.putsSucceeded = 0)
    (hfailed : service.putsFailed = 0) (history : History) :
    let start := ofService service
    let m := start.after history
    let told := start.storeRepliesIn history
    ((∀ e ∈ start.endedIn history, e.how ≠ .lost) →
      m.service.putsSucceeded + m.service.putsFailed + m.puts.length =
        told.countP (·.isPublished) + told.countP (·.isFound)) ∧
    ((start.endedIn history).map (·.number) ++ m.puts.map (·.1)).Perm (List.range m.nextPut) ∧
    (∀ carriage, Punctual start service.config.putTimeout carriage history →
      (m.service.putsSucceeded = (start.endedIn history).countP fun e =>
        (carriage e.number).AcknowledgesIn service.config.putTimeout) ∧
      ∀ e ∈ start.endedIn history, ∃ s ∈ start.startedIn history,
        s.number = e.number ∧ e.moment ≤ s.start + service.config.putTimeout) ∧
    ∀ record expiry, m.service.CachedUntil record expiry →
      (∀ now call id, now < expiry → record.validate = .ok () →
        readId id = .ok (record.key, record.id) →
        (m.step now (.publish call id record)).2 = [.replies call .published]) ∧
      ∀ again, Republishes record expiry again →
        (∃ calls, calls.Sublist m.calls ∧ m.after again = { m with calls }) ∧
          m.startedIn again = [] := by
  intro start m told
  have haccounts : PutAccounts start history :=
    (PutAccounts.ofService hsucceeded hfailed).after history
  refine ⟨fun hsound => ?_, haccounts.parted, fun carriage hp => ?_,
    fun record expiry hcached => ⟨fun now call id hnow hvalid hid => ?_, after_again hcached⟩⟩
  · have hall := haccounts.parted.length_eq
    rw [List.length_append, List.length_map, List.length_map, List.length_range,
      haccounts.length_ended hsound] at hall
    rw [hall, ← haccounts.told]
    exact Reply.countP_isSuccess told
  · exact ⟨haccounts.succeeded_of_punctual hp, fun e he => haccounts.moment_le hp he⟩
  · obtain ⟨reply, hstep, hreply⟩ := step_again hcached hnow call id
    rw [hstep, hreply hvalid hid]

/-- A record is published, and its put is acknowledged; when its response has expired, a get has it
    from the store, and this put takes too long. Then it is published twice more. -/
theorem puts_add_up_of_two_puts :
    ∃ (history again : History) (carriage : Nat → Simulation.ScriptEntry) (record : Record)
      (expiry : Nat),
      let start := ofService (.fresh .standard (.memory .empty))
      let m := start.after history
      (∀ e ∈ start.endedIn history, e.how ≠ .lost) ∧
      Punctual start ServiceConfig.standard.putTimeout carriage history ∧
      m.service.CachedUntil record expiry ∧ Republishes record expiry again ∧ again.length = 2 ∧
      (m.service.putsSucceeded = (start.endedIn history).countP fun e =>
        (carriage e.number).AcknowledgesIn ServiceConfig.standard.putTimeout) ∧
      m.startedIn again = [] ∧
      m.service.putsSucceeded + m.service.putsFailed + m.puts.length =
        (start.storeRepliesIn history).countP (·.isPublished) +
          (start.storeRepliesIn history).countP (·.isFound) := by
  let start := ofService (.fresh .standard (.memory .empty))
  let r := neutralRecord [] 5
  let history : History :=
    [(720001, .put 1 .failed), (710001, .store 1 .proceeds), (710000, .lookup 1 .timesOut),
      (700000, .get 1 r.id), (3, .put 0 .acknowledged), (2, .store 0 .proceeds),
      (1, .publish 0 r.id r)]
  let again : History := [(720003, .publish 3 r.id r), (720002, .publish 2 r.id r)]
  let carriage : Nat → Simulation.ScriptEntry := fun n =>
    if n = 0 then ⟨1, .succeeds⟩ else ⟨0, .hangs⟩
  have hr : r.validate = .ok () := validate_neutralRecord (by decide) (by decide)
  have hpublish := step_publish_of_valid start 1 0 hr (by decide +kernel)
  have hstarted : start.startedIn history = [⟨1, 710001⟩, ⟨0, 2⟩] := by
    simp only [history, startedIn, after, hpublish]
    decide +kernel
  have hended : start.endedIn history = [⟨1, 720001, .failed⟩, ⟨0, 3, .acknowledged⟩] := by
    simp only [history, endedIn, after, hpublish]
    decide +kernel
  have hsound : ∀ e ∈ start.endedIn history, e.how ≠ .lost := by
    rw [hended]
    decide
  have hp : Punctual start ServiceConfig.standard.putTimeout carriage history := by
    constructor
    · rw [hstarted, hended]
      decide
    · rw [hstarted, hended]
      decide
  have hcached : (start.after history).service.CachedUntil r 1310001 := by
    have hread : Response.ofBytes r.response.toBytes = .ok r.response :=
      Response.ofBytes_toBytes (by decide)
    refine ⟨⟨r.id, r.response.toBytes, 1310001⟩, ?_, rfl, hread⟩
    simp only [history, after, hpublish]
    decide +kernel
  have hagain : Republishes r 1310001 again := by
    intro e he
    rcases List.mem_cons.1 he with rfl | he
    · exact ⟨by decide, _, _, rfl⟩
    · obtain rfl := List.mem_singleton.1 he
      exact ⟨by decide, _, _, rfl⟩
  obtain ⟨hsum, -, hcarried, hrest⟩ :=
    puts_add_up (.fresh .standard (.memory .empty)) rfl rfl history
  have hquiet : (start.after history).startedIn again = [] :=
    ((hrest r 1310001 hcached).2 again hagain).2
  exact ⟨history, again, carriage, r, 1310001, hsound, hp, hcached, hagain, rfl,
    (hcarried carriage hp).1, hquiet, hsum hsound⟩

end ServiceMachine

end SignedRecords
