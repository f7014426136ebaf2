import SignedRecords.Proofs.LookupRuns

/-!
# The stall of a lookup

While queries are under way the nodes that count change: failures let farther nodes in, and replies
put nearer ones before them. At the end both views agree: the nearest nodes that have not failed are
the nearest that have answered.

Main statement: `closest_of_stalled`.
-/

namespace SignedRecords

/-- A prefix of the elements that pass a test is also a prefix of those that pass a stronger one, if
    its elements do. -/
theorem take_filter_of_forall {α : Type} {strong weak : α → Bool} {xs : List α} {n : Nat}
    (hweak : ∀ x, strong x = true → weak x = true)
    (hall : ∀ x ∈ (xs.filter weak).take n, strong x = true) :
    (xs.filter strong).take n = (xs.filter weak).take n := by
  have hboth : xs.filter strong = (xs.filter weak).filter strong := by
    rw [List.filter_filter]
    apply List.filter_congr
    intro x _
    cases hs : strong x with
    | false => rfl
    | true => rw [hweak x hs]; rfl
  rw [hboth]
  generalize xs.filter weak = ys at hall ⊢
  rw [← List.take_append_drop n ys, List.filter_append, List.filter_eq_self.2 hall]
  rcases Nat.le_total n ys.length with hle | hle
  · have hlen : (ys.take n).length = n := List.length_take_of_le hle
    rw [List.take_left' hlen, List.take_left' hlen]
  · rw [List.drop_eq_nil_of_le hle]
    rfl

/-- When a lookup stalls, the nodes that count have all answered. -/
theorem LookupStep.Tells.closest_eq {step : LookupStep}
    {settings : NodeId × NodeId × Option Sequence × Nat × Nat} {learned asked : List Peer}
    {past : List QueryEnd} (h : step.Tells settings learned asked past)
    (hzero : step.lookup.outstanding = 0) :
    step.lookup.closest = step.lookup.window.map (·.peer) ∧
      ∀ c ∈ step.lookup.window, c.state = .responded := by
  have hall : ∀ c ∈ step.lookup.window, c.state = .responded := by
    intro c hc
    have hpending := Lookup.next?_eq_none (h.exhausted hzero) c hc
    have hquerying := Lookup.outstanding_eq_zero.1 hzero c (Lookup.mem_window hc).1
    have hfailed := (Lookup.mem_window hc).2
    cases hstate : c.state with
    | pending => exact absurd hstate hpending
    | querying => exact absurd hstate hquerying
    | failed => exact absurd hstate hfailed
    | responded => rfl
  refine ⟨congrArg _ (take_filter_of_forall (fun c hc => ?_) fun c hc => ?_), hall⟩
  · rw [beq_iff_eq] at hc
    rw [hc]
    rfl
  · rw [hall c hc]
    rfl

/-- The nodes of a lookup that have not failed. -/
def survivors (localId : NodeId) (seeds : List Peer) (past : List QueryEnd) : List Peer :=
  (firstOfEach (learnedIn localId seeds past)).filter fun p => !failedIn past p

theorem mem_learnedIn_of_survivors {localId : NodeId} {seeds : List Peer} {past : List QueryEnd}
    {p : Peer} (hp : p ∈ survivors localId seeds past) : p ∈ learnedIn localId seeds past :=
  List.mem_of_find?_eq_some (mem_firstOfEach.1 (List.mem_filter.1 hp).1)

/-- The nodes that count are the nearest of all that were named and have not failed. -/
theorem Lookup.Recalls.window_eq {l : Lookup} {localId target : NodeId}
    {known : Option Sequence} {k alpha : Nat} {seeds asked : List Peer} {past : List QueryEnd}
    (h : l.Recalls (learnedIn localId seeds past) asked past)
    (hsettings : l.settings = (localId, target, known, k, alpha)) :
    l.window.map (·.peer) =
      RoutingTable.nearestOf (survivors localId seeds past) target (max k 1) := by
  have htarget : l.target = target := congrArg (·.2.1) hsettings
  have hk : l.k = k := congrArg (·.2.2.2.1) hsettings
  have hasc : Ascending target
      ((l.candidates.filter (·.state != .failed)).map (·.peer)) := by
    rw [← htarget]
    exact h.ascending.sublist (List.filter_sublist.map _)
  have hsurvivors : (survivors localId seeds past).Nodup :=
    (List.Nodup.of_map _ (nodup_firstOfEach _)).filter _
  have hfailed : ∀ p : Peer, stateIn asked past p.id = .failed ↔ failedIn past p = true :=
    fun p => Lookup.stateIn_eq_failed h.once
  have hperm : ((l.candidates.filter (·.state != .failed)).map (·.peer)).Perm
      (survivors localId seeds past) := by
    rw [List.perm_ext_iff_of_nodup (List.Nodup.of_map _ hasc.ids_nodup) hsurvivors]
    intro p
    rw [survivors, List.mem_filter, ← h.peers p, List.mem_map]
    constructor
    · rintro ⟨c, hc, rfl⟩
      obtain ⟨hmem, hstate⟩ := List.mem_filter.1 hc
      refine ⟨List.mem_map_of_mem hmem, ?_⟩
      rw [h.states c hmem] at hstate
      rw [Bool.not_eq_true', Bool.eq_false_iff, ne_eq, ← hfailed]
      simpa using hstate
    · rintro ⟨hp, hlive⟩
      obtain ⟨c, hmem, rfl⟩ := List.mem_map.1 hp
      refine ⟨c, List.mem_filter.2 ⟨hmem, ?_⟩, rfl⟩
      rw [Bool.not_eq_true', Bool.eq_false_iff, ne_eq, ← hfailed] at hlive
      rw [h.states c hmem]
      simpa using hlive
  rw [← RoutingTable.eq_nearestOf_of_ascending hasc hperm, ← hk, ← List.map_take]
  rfl

theorem LookupStep.Tells.window_eq {step : LookupStep} {localId target : NodeId}
    {known : Option Sequence} {k alpha : Nat} {seeds asked : List Peer} {past : List QueryEnd}
    (h : step.Tells (localId, target, known, k, alpha) (learnedIn localId seeds past) asked past) :
    step.lookup.window.map (·.peer) =
      RoutingTable.nearestOf (survivors localId seeds past) target (max k 1) :=
  h.recalls.window_eq h.settings

/-- When a lookup reports its stall, it hands over the nearest of all nodes that it has learned of
    and that did not fail. All of these have answered, they come in strictly increasing distance and
    without a repetition, and all queries that were started have ended. This is so whatever the
    nodes do: each query fails or brings any list of nodes, with repetitions, with the asking node
    itself or with known ids at other addresses, and the queries end in any order. -/
theorem closest_of_stalled (localId target : NodeId) (known : Option Sequence) (k alpha : Nat)
    (seeds : List Peer) (past : List QueryEnd) (asked : List Peer) (step : LookupStep)
    (h : LookupRun (.ofSeeds localId target known k alpha seeds) past asked step)
    (closest : List Peer) (hstalled : .stalled closest ∈ step.events) :
    closest = RoutingTable.nearestOf (survivors localId seeds past) target (max k 1) ∧
      (∀ p ∈ closest, ∃ reply, (p.id, some reply) ∈ past) ∧
      closest.Pairwise (fun p q => Lookup.distance target p.id < Lookup.distance target q.id) ∧
      (closest.map (·.id)).Nodup ∧
      step.lookup.outstanding = 0 ∧ ∀ p ∈ asked, ∃ reply, (p.id, reply) ∈ past := by
  have htells := h.tells
  obtain ⟨hzero, rfl⟩ := (htells.stalled closest).1 hstalled
  obtain ⟨hwindow, hall⟩ := htells.closest_eq hzero
  have hnearest := hwindow.trans htells.window_eq
  have hids : ((survivors localId seeds past).map (·.id)).Nodup :=
    (nodup_firstOfEach _).sublist (List.filter_sublist.map _)
  have hasc : Ascending target
      (RoutingTable.nearestOf (survivors localId seeds past) target (max k 1)) :=
    RoutingTable.ascending_nearestOf hids _
  refine ⟨hnearest, ?_, ?_, ?_, hzero, ?_⟩
  · intro p hp
    rw [hwindow] at hp
    obtain ⟨c, hc, rfl⟩ := List.mem_map.1 hp
    have hstate := hall c hc
    rw [htells.recalls.states c (Lookup.mem_window hc).1] at hstate
    exact Lookup.replied_of_stateIn hstate
  · rw [hnearest]
    exact hasc
  · rw [hnearest]
    exact hasc.ids_nodup
  · intro p hp
    obtain ⟨c, hc, rfl⟩ := List.mem_map.1 (htells.recalls.known p hp)
    have hstate := Lookup.outstanding_eq_zero.1 hzero c hc
    rw [htells.recalls.states c hc] at hstate
    by_contra hnone
    refine hstate (Lookup.stateIn_eq_querying.2 ⟨⟨c.peer, hp, rfl⟩, fun e he heq => ?_⟩)
    exact hnone ⟨e.2, heq ▸ he⟩

/-- The nearest node fails, and the next one names a node twice, the asking node, and the failed
    node at another address. -/
theorem closest_of_stalled_after_failure :
    ∃ (seeds : List Peer) (past : List QueryEnd) (asked : List Peer) (step : LookupStep)
      (closest : List Peer),
      LookupRun (.ofSeeds 0 0 none 2 1 seeds) past asked step ∧
        .stalled closest ∈ step.events ∧ closest.map (·.id) = [3, 4] ∧ (1, none) ∈ past ∧
        (closest = RoutingTable.nearestOf (survivors 0 seeds past) 0 (max 2 1) ∧
          (∀ p ∈ closest, ∃ reply, (p.id, some reply) ∈ past) ∧
          closest.Pairwise (fun p q => Lookup.distance 0 p.id < Lookup.distance 0 q.id) ∧
          (closest.map (·.id)).Nodup ∧
          step.lookup.outstanding = 0 ∧ ∀ p ∈ asked, ∃ reply, (p.id, reply) ∈ past) := by
  let node (id : NodeId) (port : UInt16) : Peer := ⟨id, .v4 (.zero 4) port, default⟩
  let seeds : List Peer := [node 4 4, node 0 9, node 1 1]
  let reply : GetReply := ⟨none, [node 3 3, node 3 8, node 0 9, node 1 7]⟩
  let l : Lookup := .ofSeeds 0 0 none 2 1 seeds
  have hrun : LookupRun l [(3, some ⟨none, []⟩), (4, some reply), (1, none)] _ _ :=
    .ends (.ends (.ends .begins none (by decide +kernel))
      (some reply) (by decide +kernel)) (some ⟨none, []⟩) (by decide +kernel)
  have hstalled : .stalled [node 3 3, node 4 4] ∈ (((l.begin.lookup.answer 1 none).lookup.answer 4
      (some reply)).lookup.answer 3 (some ⟨none, []⟩)).events := by
    decide +kernel
  exact ⟨seeds, _, _, _, _, hrun, hstalled, by decide, by simp,
    closest_of_stalled 0 0 none 2 1 seeds _ _ _ hrun _ hstalled⟩

end SignedRecords
