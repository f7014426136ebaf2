import Mathlib.Data.Finset.Card
import SignedRecords.Proofs.GetRuns

/-!
# What a lookup costs

The nodes that answer may name any nodes: the asking one, known ids at new addresses, ids ever
nearer to the target. The list of nodes grows while it is worked off, so what bounds a lookup is not
a count of its rounds. It is that a node, once asked, never waits to be asked again: the queries
that are outstanding and those that have ended are, at every moment, the queries that were started,
each id once. So no more queries are started than ids were named, and a lookup whose queries have
all ended has stalled.

Main statement: `lookup_costs`.
-/

namespace SignedRecords

open RoutingTable (nearestOf)

/-! ## 1. Moments -/

namespace Lookup

/-- A lookup on the way to its next step: the query that has just ended, if one has, what was
    reported of it, and who has been asked since. -/
inductive Midway (l : Lookup) :
    List QueryEnd → List LookupEvent → List Peer → Lookup → Prop where
  | asks {slots : Nat} (hslots : slots ≤ max l.alpha 1 - l.outstanding) :
    Midway l [] [] (ask slots l).2 (ask slots l).1
  /-- A query ends. -/
  | notes {id : NodeId} (hq : l.isQuerying id = true) (reply : Option GetReply) {slots : Nat}
      (hslots : slots ≤ max l.alpha 1 - (l.noted id reply).outstanding) :
    Midway l [(id, reply)] ((GetReply.brought l.target reply).map .candidate)
      (ask slots (l.noted id reply)).2 (ask slots (l.noted id reply)).1

/-- A lookup at any moment of its run, with the queries that have ended, the nodes that were asked
    before the last of these ends, and the nodes that have been asked since. -/
inductive Stands (l : Lookup) : List QueryEnd → List Peer → List Peer → Lookup → Prop where
  | opens {ended : List QueryEnd} {reports : List LookupEvent} {more : List Peer} {now : Lookup}
      (h : l.Midway ended reports more now) : Stands l ended [] more now
  | runs {past : List QueryEnd} {asked : List Peer} {step : LookupStep}
      (hrun : LookupRun l past asked step) {ended : List QueryEnd} {reports : List LookupEvent}
      {more : List Peer} {now : Lookup} (h : step.lookup.Midway ended reports more now) :
    Stands l (ended ++ past) asked more now

/-! ## 2. Counts -/

/-- A lookup that recalls what has happened and has counted it, and has asked nobody twice. -/
structure Tallies (l : Lookup) (learned asked : List Peer) (past : List QueryEnd) : Prop
    extends l.Recalls learned asked past where
  distinct : (asked.map (·.id)).Nodup
  tried : l.stats.tried = asked.length
  responses : l.stats.responses = past.countP (·.2.isSome)

variable {l : Lookup} {learned asked : List Peer} {past : List QueryEnd}

/-- The ids of the queries that are outstanding. -/
def awaited (l : Lookup) : List NodeId :=
  (l.candidates.filter (·.state == .querying)).map (·.peer.id)

theorem mem_awaited {id : NodeId} : id ∈ l.awaited ↔ l.isQuerying id = true := by
  unfold awaited isQuerying
  rw [List.mem_map, List.any_eq_true]
  constructor
  · rintro ⟨c, hc, rfl⟩
    obtain ⟨hmem, hstate⟩ := List.mem_filter.1 hc
    exact ⟨c, hmem, by simpa using hstate⟩
  · rintro ⟨c, hmem, hquery⟩
    rw [Bool.and_eq_true, beq_iff_eq] at hquery
    exact ⟨c, List.mem_filter.2 ⟨hmem, hquery.2⟩, hquery.1⟩

/-- Every query that was started is outstanding or has ended. -/
theorem Tallies.outstanding_add (h : l.Tallies learned asked past) :
    l.outstanding + past.length = asked.length := by
  have hids : (l.candidates.map (·.peer.id)).Nodup := by
    have hpeers := h.ascending.ids_nodup
    rwa [peers, List.map_map] at hpeers
  have hboth : (l.awaited ++ past.map (·.1)).Nodup := by
    refine List.nodup_append.2 ⟨hids.sublist (List.filter_sublist.map _), h.once, ?_⟩
    rintro id hid _ hpast rfl
    obtain ⟨e, he, heq⟩ := List.mem_map.1 hpast
    exact (h.isQuerying_iff.1 (mem_awaited.1 hid)).2 e he heq
  have hperm : (l.awaited ++ past.map (·.1)).Perm (asked.map (·.id)) := by
    rw [List.perm_ext_iff_of_nodup hboth h.distinct]
    intro id
    rw [List.mem_append, mem_awaited, h.isQuerying_iff, List.mem_map, List.mem_map]
    constructor
    · rintro (⟨hasked, -⟩ | ⟨e, he, rfl⟩)
      · exact hasked
      · exact h.ended e he
    · intro hasked
      by_cases hpast : ∃ e ∈ past, e.1 = id
      · exact .inr hpast
      · exact .inl ⟨hasked, fun e he heq => hpast ⟨e, he, heq⟩⟩
  have hlen := hperm.length_eq
  rw [List.length_append, awaited, List.length_map, List.length_map, List.length_map] at hlen
  rw [outstanding, List.countP_eq_length_filter]
  exact hlen

/-- No more replies are counted than queries. -/
theorem Tallies.responses_le (h : l.Tallies learned asked past) :
    l.stats.responses ≤ l.stats.tried := by
  have hended := h.outstanding_add
  have hreplied : past.countP (·.2.isSome) ≤ past.length := List.countP_le_length
  rw [h.responses, h.tried]
  omega

/-- A waiting node is asked. -/
theorem Tallies.mark_asked (h : l.Tallies learned asked past) {c : Candidate}
    (hc : c ∈ l.candidates) (hp : c.state = .pending) :
    Tallies { l.mark c.peer.id .querying with
      stats := { l.stats with tried := l.stats.tried + 1 } } learned (asked ++ [c.peer]) past := by
  have hnew : ∀ p ∈ asked, p.id ≠ c.peer.id := by
    rw [← stateIn_eq_pending h.ended, ← h.states c hc]
    exact hp
  constructor
  case toRecalls => exact (h.toRecalls.mark_asked hc hp).counted _
  case distinct =>
    rw [List.map_append, List.map_singleton, List.nodup_append]
    refine ⟨h.distinct, List.nodup_singleton _, ?_⟩
    rintro _ hid _ hsingle rfl
    obtain ⟨p, hp, heq⟩ := List.mem_map.1 hid
    exact hnew p hp (heq.trans (List.mem_singleton.1 hsingle))
  case tried =>
    rw [List.length_append, List.length_singleton]
    exact congrArg (· + 1) h.tried
  case responses => exact h.responses

theorem Tallies.ask (h : l.Tallies learned asked past) (slots : Nat) :
    (Lookup.ask slots l).1.Tallies learned (asked ++ (Lookup.ask slots l).2) past := by
  induction slots generalizing l asked with
  | zero =>
    rw [Lookup.ask, List.append_nil]
    exact h
  | succ slots ih =>
    cases hn : l.next? with
    | none =>
      rw [ask_of_next?_none hn, List.append_nil]
      exact h
    | some p =>
      obtain ⟨c, hc, hp, rfl⟩ := next?_eq_some hn
      have hnext := ih (h.mark_asked (mem_window hc).1 hp)
      rw [List.append_assoc] at hnext
      rw [ask_succ hn]
      exact hnext

theorem stats_noted (l : Lookup) (id : NodeId) (reply : Option GetReply) :
    (l.noted id reply).stats =
      ⟨l.stats.tried, l.stats.responses + [(id, reply)].countP (·.2.isSome)⟩ := by
  cases reply <;> rfl

/-- A query ends, and is counted if there was a reply. -/
theorem Tallies.noted (h : l.Tallies learned asked past) {id : NodeId}
    (hq : l.isQuerying id = true) (reply : Option GetReply) : (l.noted id reply).Tallies
      (learned ++ ((reply.map (·.nodes)).getD []).filter (·.id != l.localId)) asked
      ((id, reply) :: past) := by
  constructor
  case toRecalls => exact h.toRecalls.noted hq reply
  case distinct => exact h.distinct
  case tried =>
    rw [stats_noted]
    exact h.tried
  case responses =>
    have hcons : (id, reply) :: past = [(id, reply)] ++ past := rfl
    rw [stats_noted, hcons, List.countP_append, ← h.responses, Nat.add_comm]

theorem length_ask_le (slots : Nat) (l : Lookup) : (Lookup.ask slots l).2.length ≤ slots := by
  induction slots generalizing l with
  | zero => exact Nat.le_refl 0
  | succ slots ih =>
    cases hn : l.next? with
    | none =>
      rw [ask_of_next?_none hn]
      exact Nat.zero_le _
    | some p =>
      rw [ask_succ hn]
      exact Nat.succ_le_succ (ih _)

/-- Asking into free slots keeps to the slots. -/
theorem Tallies.room_ask (h : l.Tallies learned asked past) {slots : Nat}
    (hroom : l.outstanding ≤ max l.alpha 1) (hslots : slots ≤ max l.alpha 1 - l.outstanding) :
    (Lookup.ask slots l).1.outstanding ≤ max l.alpha 1 := by
  have hbefore := h.outstanding_add
  have hafter := (h.ask slots).outstanding_add
  have hlen := length_ask_le slots l
  rw [List.length_append] at hafter
  omega

/-- When a query ends, its slot is free. -/
theorem Tallies.outstanding_noted (h : l.Tallies learned asked past) {id : NodeId}
    (hq : l.isQuerying id = true) (reply : Option GetReply) :
    (l.noted id reply).outstanding + 1 = l.outstanding := by
  have hbefore := h.outstanding_add
  have hafter := (h.noted hq reply).outstanding_add
  rw [List.length_cons] at hafter
  omega

/-! ## 3. Who is asked -/

variable {localId target : NodeId} {known : Option Sequence} {k alpha : Nat} {seeds : List Peer}

/-- Whoever is asked is one of the nodes that count at that moment. Asking itself does not change
    which nodes these are. -/
theorem Recalls.near_of_asked (h : l.Recalls (learnedIn localId seeds past) asked past)
    (hsettings : l.settings = (localId, target, known, k, alpha)) {slots : Nat} {p : Peer}
    (hp : p ∈ (Lookup.ask slots l).2) :
    p ∈ nearestOf (survivors localId seeds past) target (max k 1) := by
  induction slots generalizing l asked with
  | zero => cases hp
  | succ slots ih =>
    cases hn : l.next? with
    | none =>
      rw [ask_of_next?_none hn] at hp
      cases hp
    | some first =>
      obtain ⟨c, hc, hpending, rfl⟩ := next?_eq_some hn
      rw [ask_succ hn] at hp
      rcases List.mem_cons.1 hp with rfl | hp
      · rw [← h.window_eq hsettings]
        exact List.mem_map_of_mem hc
      · exact ih ((h.mark_asked (mem_window hc).1 hpending).counted _) hsettings hp

theorem ne_of_mem_learnedIn {p : Peer} (hp : p ∈ learnedIn localId seeds past) :
    p.id ≠ localId := by
  induction past with
  | nil => exact bne_iff_ne.1 (List.mem_filter.1 hp).2
  | cons e rest ih =>
    obtain ⟨id, reply⟩ := e
    rcases List.mem_append.1 hp with hp | hp
    · exact ih hp
    · exact bne_iff_ne.1 (List.mem_filter.1 hp).2

/-- No more nodes are asked than ids were named. -/
theorem Tallies.length_asked_le (h : l.Tallies learned asked past) :
    asked.length ≤ (learned.map (·.id)).toFinset.card := by
  rw [← List.length_map (·.id), ← List.toFinset_card_of_nodup h.distinct]
  apply Finset.card_le_card
  intro id hid
  rw [List.mem_toFinset] at hid ⊢
  obtain ⟨p, hp, rfl⟩ := List.mem_map.1 hid
  exact List.mem_map_of_mem (h.learned_of_asked hp)

/-! ## 4. Runs -/

/-- What is true of a lookup at every moment. -/
structure Accounts (l : Lookup) (localId target : NodeId) (known : Option Sequence) (k alpha : Nat)
    (seeds : List Peer) (past : List QueryEnd) (asked : List Peer) : Prop where
  settings : l.settings = (localId, target, known, k, alpha)
  tallies : l.Tallies (learnedIn localId seeds past) asked past
  room : l.outstanding ≤ max alpha 1

theorem accounts_ofSeeds (localId target : NodeId) (known : Option Sequence) (k alpha : Nat)
    (seeds : List Peer) : (ofSeeds localId target known k alpha seeds).Accounts localId target known
      k alpha seeds [] [] := by
  let bare : Lookup := ⟨localId, target, known, k, alpha, [], ⟨0, 0⟩⟩
  have hbare : bare.Recalls [] [] [] :=
    ⟨List.Pairwise.nil, fun p => Iff.rfl, fun c hc => (nomatch hc), fun p hp => (nomatch hp),
      fun e he => (nomatch he), List.nodup_nil⟩
  have htallies : (ofSeeds localId target known k alpha seeds).Tallies
      (learnedIn localId seeds []) [] [] :=
    ⟨hbare.learn seeds, List.nodup_nil, rfl, rfl⟩
  refine ⟨rfl, htallies, ?_⟩
  have hzero := htallies.outstanding_add
  simp only [List.length_nil] at hzero
  omega

variable {ended : List QueryEnd} {reports : List LookupEvent} {more : List Peer} {now : Lookup}

theorem alpha_noted (l : Lookup) (id : NodeId) (reply : Option GetReply) :
    (l.noted id reply).alpha = l.alpha := by
  cases reply <;> rfl

/-- A moment later the accounts are in order again, and whoever has been asked since counted. -/
theorem Midway.accounts (hm : l.Midway ended reports more now)
    (h : l.Accounts localId target known k alpha seeds past asked) :
    now.Accounts localId target known k alpha seeds (ended ++ past) (asked ++ more) ∧
      ∀ p ∈ more, p ∈ nearestOf (survivors localId seeds (ended ++ past)) target (max k 1) := by
  have hlocal : l.localId = localId := congrArg Prod.fst h.settings
  have halpha : l.alpha = alpha := congrArg (·.2.2.2.2) h.settings
  cases hm with
  | asks hslots =>
    have hroom := h.room
    rw [← halpha] at hroom
    refine ⟨⟨(settings_ask _ l).trans h.settings, h.tallies.ask _, ?_⟩, fun p hp => ?_⟩
    · rw [← halpha]
      exact h.tallies.room_ask hroom hslots
    · exact h.tallies.near_of_asked h.settings hp
  | @notes id hq reply slots hslots =>
    have hnoted := h.tallies.noted hq reply
    rw [hlocal] at hnoted
    have hsettings : (l.noted id reply).settings = (localId, target, known, k, alpha) :=
      (settings_noted l id reply).trans h.settings
    have hsame := alpha_noted l id reply
    have hfree := h.tallies.outstanding_noted hq reply
    have hroom := h.room
    rw [← hsame] at hslots
    refine ⟨⟨(settings_ask _ _).trans hsettings, hnoted.ask _, ?_⟩, fun p hp => ?_⟩
    · rw [← halpha, ← hsame] at hroom ⊢
      exact hnoted.room_ask (by omega) hslots
    · exact hnoted.near_of_asked hsettings hp

/-- A whole step is a moment of itself. -/
theorem midway_begin (l : Lookup) : l.Midway [] [] l.begin.queries l.begin.lookup := by
  obtain ⟨hlookup, hqueries⟩ := proceed_lookup l []
  unfold begin
  rw [hlookup, hqueries]
  exact .asks (Nat.le_refl _)

theorem midway_answer {id : NodeId} (hq : l.isQuerying id = true) (reply : Option GetReply) :
    l.Midway [(id, reply)] ((GetReply.brought l.target reply).map .candidate)
      (l.answer id reply).queries (l.answer id reply).lookup := by
  obtain ⟨events, -, heq⟩ := answer_eq_proceed hq reply
  obtain ⟨hlookup, hqueries⟩ := proceed_lookup (l.noted id reply) events
  rw [heq, hlookup, hqueries]
  exact .notes hq reply (Nat.le_of_eq (by rw [alpha_noted]))

end Lookup

variable {localId target : NodeId} {known : Option Sequence} {k alpha : Nat} {seeds : List Peer}
  {past : List QueryEnd}

theorem LookupRun.accounts {asked : List Peer} {step : LookupStep}
    (h : LookupRun (.ofSeeds localId target known k alpha seeds) past asked step) :
    step.lookup.Accounts localId target known k alpha seeds past asked := by
  induction h with
  | begins =>
    exact ((Lookup.midway_begin _).accounts (Lookup.accounts_ofSeeds ..)).1
  | ends _ reply hq ih => exact ((Lookup.midway_answer hq reply).accounts ih).1

theorem Lookup.Stands.accounts {before more : List Peer} {now : Lookup}
    (h : (Lookup.ofSeeds localId target known k alpha seeds).Stands past before more now) :
    now.Accounts localId target known k alpha seeds past (before ++ more) ∧
      ∀ p ∈ more, p ∈ nearestOf (survivors localId seeds past) target (max k 1) := by
  cases h with
  | opens hm =>
    have hopening := hm.accounts (Lookup.accounts_ofSeeds ..)
    rw [List.append_nil] at hopening
    exact hopening
  | runs hrun hm => exact hm.accounts hrun.accounts

/-- At every moment of a lookup, whatever its nodes answer and in whatever order, each id has been
    asked at most once and the asking node has not been asked; no more queries are outstanding than
    are allowed; whoever has been asked since the last query ended is among the nearest nodes that
    have been named and have not failed; and as many queries are counted as were started. No more
    queries are started than ids were named. All of them are outstanding or have ended, and when all
    have ended the lookup has stalled, not before. -/
theorem lookup_costs (localId target : NodeId) (known : Option Sequence) (k alpha : Nat)
    (seeds : List Peer) (past : List QueryEnd) (before more : List Peer) (now : Lookup)
    (h : (Lookup.ofSeeds localId target known k alpha seeds).Stands past before more now) :
    ((before ++ more).map (·.id)).Nodup ∧
      (∀ p ∈ before ++ more, p.id ≠ localId) ∧
      now.outstanding ≤ max alpha 1 ∧
      (∀ p ∈ more, p ∈ nearestOf (survivors localId seeds past) target (max k 1)) ∧
      now.stats.tried = (before ++ more).length ∧
      (before ++ more).length ≤ ((learnedIn localId seeds past).map (·.id)).toFinset.card ∧
      now.outstanding + past.length = (before ++ more).length ∧
      ∀ step, LookupRun (.ofSeeds localId target known k alpha seeds) past (before ++ more) step →
        ((∃ closest, .stalled closest ∈ step.events) ↔ past.length = (before ++ more).length) := by
  obtain ⟨haccounts, hnear⟩ := h.accounts
  have htallies := haccounts.tallies
  refine ⟨htallies.distinct, fun p hp => ?_, haccounts.room, hnear, htallies.tried,
    htallies.length_asked_le, htallies.outstanding_add, fun step hrun => ?_⟩
  · exact Lookup.ne_of_mem_learnedIn (htallies.learned_of_asked hp)
  · have hall := hrun.accounts.tallies.outstanding_add
    have hstalled := hrun.tells.stalled
    constructor
    · rintro ⟨closest, hmem⟩
      have hzero := ((hstalled closest).1 hmem).1
      omega
    · intro hlen
      exact ⟨_, (hstalled _).2 ⟨by omega, rfl⟩⟩

/-- Two seeds are asked at a time. The nearest fails, the other names itself at a new address, the
    asking node, the failed node and a nearer one, which names two still nearer ones. One of these
    is being asked when the last reply is read. -/
theorem lookup_costs_of_liars :
    ∃ (seeds : List Peer) (past : List QueryEnd) (before more : List Peer) (now : Lookup),
      (Lookup.ofSeeds 5 0 none 2 2 seeds).Stands past before more now ∧
        before.map (·.id) = [8, 9, 4] ∧ more.map (·.id) = [1] ∧ past.map (·.1) = [4, 8, 9] ∧
        (((before ++ more).map (·.id)).Nodup ∧
          (∀ p ∈ before ++ more, p.id ≠ 5) ∧
          now.outstanding ≤ max 2 1 ∧
          (∀ p ∈ more, p ∈ nearestOf (survivors 5 seeds past) 0 (max 2 1)) ∧
          now.stats.tried = (before ++ more).length ∧
          (before ++ more).length ≤ ((learnedIn 5 seeds past).map (·.id)).toFinset.card ∧
          now.outstanding + past.length = (before ++ more).length ∧
          ∀ step, LookupRun (.ofSeeds 5 0 none 2 2 seeds) past (before ++ more) step →
            ((∃ closest, .stalled closest ∈ step.events) ↔
              past.length = (before ++ more).length)) := by
  let node (id : NodeId) (port : UInt16) : Peer := ⟨id, .v4 (.zero 4) port, default⟩
  let seeds : List Peer := [node 8 8, node 9 9]
  let nine : GetReply := ⟨none, [node 9 7, node 5 5, node 8 7, node 4 4]⟩
  let four : GetReply := ⟨none, [node 2 2, node 1 1, node 5 6]⟩
  let l : Lookup := .ofSeeds 5 0 none 2 2 seeds
  have hrun : LookupRun l [(8, none), (9, some nine)] _ _ :=
    .ends (.ends .begins (some nine) (by decide +kernel)) none (by decide +kernel)
  let later : Lookup := ((l.begin.lookup.answer 9 (some nine)).lookup.answer 8 none).lookup
  have hasked : later.isQuerying 4 = true := by decide +kernel
  have hroom : 1 ≤ max later.alpha 1 - (later.noted 4 (some four)).outstanding := by
    decide +kernel
  have hstands := Lookup.Stands.runs hrun (.notes hasked (some four) hroom)
  exact ⟨seeds, _, _, _, _, hstands, by decide +kernel, by decide +kernel, by decide +kernel,
    lookup_costs 5 0 none 2 2 seeds _ _ _ _ hstands⟩

end SignedRecords
