import Mathlib.Data.List.Nodup
import SignedRecords.Proofs.Lookups
import SignedRecords.Proofs.Nearest

/-!
# Runs of a lookup

The nodes that a lookup asks may answer what they like or nothing at all, and their queries end in
any order. What the lookup knows is a function of what has happened: the nodes that were named, each
as it was named first, in increasing distance, and for each of them whether it was asked and how the
query ended.

Main statement: `LookupRun.tells`.
-/

namespace SignedRecords

/-- The end of a query: who was asked, and the reply, or none when the query failed or took too
    long. -/
abbrev QueryEnd := NodeId × Option GetReply

/-- A lookup that has begun and whose queries have ended as listed, the last one first; with the
    nodes that it has asked, and its last step. -/
inductive LookupRun (l : Lookup) : List QueryEnd → List Peer → LookupStep → Prop where
  | begins : LookupRun l [] l.begin.queries l.begin
  /-- An outstanding query ends. -/
  | ends {past : List QueryEnd} {asked : List Peer} {step : LookupStep}
      (h : LookupRun l past asked step) {id : NodeId} (reply : Option GetReply)
      (hq : step.lookup.isQuerying id = true) :
    LookupRun l ((id, reply) :: past) (asked ++ (step.lookup.answer id reply).queries)
      (step.lookup.answer id reply)

/-- The nodes that a lookup has learned of, in the order in which they were named: first its seeds,
    then what was replied. The asking node itself is left out. -/
def learnedIn (localId : NodeId) (seeds : List Peer) : List QueryEnd → List Peer
  | [] => seeds.filter (·.id != localId)
  | (_, reply) :: past => learnedIn localId seeds past ++
      ((reply.map (·.nodes)).getD []).filter (·.id != localId)

theorem mem_learnedIn_of_seed {localId : NodeId} {seeds : List Peer} (past : List QueryEnd)
    {p : Peer} (hp : p ∈ seeds) (hne : p.id ≠ localId) : p ∈ learnedIn localId seeds past := by
  induction past with
  | nil => exact List.mem_filter.2 ⟨hp, bne_iff_ne.2 hne⟩
  | cons e rest ih => exact List.mem_append_left _ ih

theorem mem_learnedIn_of_reply {localId id : NodeId} {seeds : List Peer} {reply : GetReply}
    {past : List QueryEnd} (h : (id, some reply) ∈ past) {p : Peer} (hp : p ∈ reply.nodes)
    (hne : p.id ≠ localId) : p ∈ learnedIn localId seeds past := by
  induction past with
  | nil => cases h
  | cons e rest ih =>
    obtain ⟨id', reply'⟩ := e
    rcases List.mem_cons.1 h with heq | h
    · cases heq
      exact List.mem_append_right _ (List.mem_filter.2 ⟨hp, bne_iff_ne.2 hne⟩)
    · exact List.mem_append_left _ (ih h)

/-- Each node once, as it is named first. -/
def firstOfEach : List Peer → List Peer
  | [] => []
  | p :: rest => p :: (firstOfEach rest).filter (·.id != p.id)

/-- Whether the query to a node has failed. -/
def failedIn (past : List QueryEnd) (p : Peer) : Bool :=
  past.any fun e => e.1 == p.id && e.2.isNone

/-- What becomes of a node when its query ends. -/
def QueryState.ofReply : Option GetReply → QueryState
  | some _ => .responded
  | none => .failed

/-- What has become of the node with an id. -/
def stateIn (asked : List Peer) (past : List QueryEnd) (id : NodeId) : QueryState :=
  match past.find? (·.1 == id) with
  | some e => .ofReply e.2
  | none => if asked.any (·.id == id) then .querying else .pending

theorem mem_firstOfEach {nodes : List Peer} {p : Peer} :
    p ∈ firstOfEach nodes ↔ nodes.find? (·.id == p.id) = some p := by
  induction nodes with
  | nil => simp [firstOfEach]
  | cons q rest ih =>
    rw [firstOfEach, List.mem_cons, List.mem_filter, ih, List.find?_cons]
    by_cases h : q.id = p.id
    · simp [h, eq_comm]
    · have hne : p ≠ q := fun e => h (e ▸ rfl)
      have hid : p.id ≠ q.id := fun e => h e.symm
      simp only [beq_eq_false_iff_ne.2 h]
      simp [hne, hid]

theorem nodup_firstOfEach (nodes : List Peer) : ((firstOfEach nodes).map (·.id)).Nodup := by
  induction nodes with
  | nil => exact List.nodup_nil
  | cons p rest ih =>
    rw [firstOfEach, List.map_cons, List.nodup_cons]
    constructor
    · intro hmem
      obtain ⟨q, hq, heq⟩ := List.mem_map.1 hmem
      have hne := (List.mem_filter.1 hq).2
      simp [heq] at hne
    · exact ih.sublist (List.filter_sublist.map _)

theorem exists_mem_firstOfEach {nodes : List Peer} {id : NodeId} :
    (∃ p ∈ firstOfEach nodes, p.id = id) ↔ ∃ p ∈ nodes, p.id = id := by
  constructor
  · rintro ⟨p, hp, rfl⟩
    exact ⟨p, List.mem_of_find?_eq_some (mem_firstOfEach.1 hp), rfl⟩
  · rintro ⟨p, hp, rfl⟩
    have hsome : (nodes.find? (·.id == p.id)).isSome = true :=
      List.find?_isSome.2 ⟨p, hp, beq_self_eq_true _⟩
    obtain ⟨q, hq⟩ := Option.isSome_iff_exists.1 hsome
    have hid : q.id = p.id := by simpa using List.find?_some hq
    exact ⟨q, mem_firstOfEach.2 (hid ▸ hq), hid⟩

/-- A node that is named later counts if its id is new. -/
theorem mem_firstOfEach_concat {nodes : List Peer} {p q : Peer} :
    q ∈ firstOfEach (nodes ++ [p]) ↔
      q ∈ firstOfEach nodes ∨ (q = p ∧ ∀ r ∈ nodes, r.id ≠ p.id) := by
  rw [mem_firstOfEach, mem_firstOfEach, List.find?_append]
  cases hf : nodes.find? (·.id == q.id) with
  | some r =>
    have hr : r.id = q.id := by simpa using List.find?_some hf
    refine (or_iff_left ?_).symm
    rintro ⟨rfl, hnew⟩
    exact hnew r (List.mem_of_find?_eq_some hf) hr
  | none =>
    have hnew : ∀ r ∈ nodes, r.id ≠ q.id := by simpa using hf
    by_cases hid : p.id = q.id
    · rw [← hid] at hnew
      rw [and_iff_left hnew, List.find?_cons, hid, beq_self_eq_true]
      simp [eq_comm]
    · have hne : q ≠ p := fun e => hid (e ▸ rfl)
      simp [hid, hne]

namespace Lookup

/-! ## 1. The nodes learned of -/

/-- The nodes that a lookup knows. -/
def peers (l : Lookup) : List Peer := l.candidates.map (·.peer)

/-- What never changes in a lookup. -/
def settings (l : Lookup) : NodeId × NodeId × Option Sequence × Nat × Nat :=
  (l.localId, l.target, l.known, l.k, l.alpha)

theorem ascending_insertPeer {target : NodeId} {cs : List Candidate} (p : Peer)
    (h : Ascending target (cs.map (·.peer))) :
    Ascending target ((insertPeer target p cs).map (·.peer)) ∧
      ∀ c, c ∈ insertPeer target p cs ↔
        c ∈ cs ∨ (c = ⟨p, .pending⟩ ∧ p.id ∉ cs.map (·.peer.id)) := by
  induction cs with
  | nil => simp [insertPeer, Ascending]
  | cons d rest ih =>
    obtain ⟨hd, hrest⟩ := List.pairwise_cons.1 h
    obtain ⟨ihasc, ihmem⟩ := ih hrest
    have hfar : ∀ c ∈ rest, distance target d.peer.id < distance target c.peer.id :=
      fun c hc => hd c.peer (List.mem_map_of_mem hc)
    unfold insertPeer
    by_cases hlt : distance target p.id < distance target d.peer.id
    · rw [if_pos hlt]
      have hnew : p.id ∉ (d :: rest).map (·.peer.id) := by
        intro hmem
        obtain ⟨c, hc, heq⟩ := List.mem_map.1 hmem
        rcases List.mem_cons.1 hc with rfl | hc
        · rw [heq] at hlt
          exact Nat.lt_irrefl _ hlt
        · have hfar := hfar c hc
          rw [heq] at hfar
          omega
      refine ⟨List.pairwise_cons.2 ⟨?_, h⟩, ?_⟩
      · intro q hq
        rcases List.mem_cons.1 hq with rfl | hq
        · exact hlt
        · exact Nat.lt_trans hlt (hd q hq)
      · intro c
        rw [List.mem_cons, or_comm]
        exact or_congr_right (and_iff_left hnew).symm
    · rw [if_neg hlt]
      by_cases heq : distance target p.id = distance target d.peer.id
      · rw [if_pos heq]
        have hold : p.id ∈ (d :: rest).map (·.peer.id) :=
          distance_inj.1 heq ▸ List.mem_map_of_mem List.mem_cons_self
        exact ⟨h, fun c => (or_iff_left fun hc => hc.2 hold).symm⟩
      · rw [if_neg heq]
        refine ⟨List.pairwise_cons.2 ⟨?_, ihasc⟩, ?_⟩
        · intro q hq
          obtain ⟨c, hc, rfl⟩ := List.mem_map.1 hq
          rcases (ihmem c).1 hc with hc | ⟨rfl, -⟩
          · exact hfar c hc
          · show distance target d.peer.id < distance target p.id
            omega
        · intro c
          have hne : p.id ≠ d.peer.id := fun e => heq (e ▸ rfl)
          rw [List.mem_cons, ihmem, List.mem_cons, List.map_cons, List.mem_cons, or_assoc]
          simp [hne]

@[simp] theorem peers_mark (l : Lookup) (id : NodeId) (state : QueryState) :
    (l.mark id state).peers = l.peers := by
  unfold peers mark
  rw [List.map_map]
  apply List.map_congr_left
  intro c _
  simp only [Function.comp_apply]
  split <;> rfl

theorem mem_mark {l : Lookup} {id : NodeId} {state : QueryState} {c : Candidate}
    (h : c ∈ (l.mark id state).candidates) :
    (c.peer.id = id ∧ c.state = state) ∨ (c.peer.id ≠ id ∧ c ∈ l.candidates) := by
  obtain ⟨d, hd, rfl⟩ := List.mem_map.1 h
  by_cases hid : d.peer.id = id
  · rw [if_pos hid]
    exact .inl ⟨hid, rfl⟩
  · rw [if_neg hid]
    exact .inr ⟨hid, hd⟩

/-! ## 2. What a lookup recalls -/

/-- A lookup knows the nodes that it has learned of, in increasing distance and each as it was named
    first, and what has become of them. -/
structure Recalls (l : Lookup) (learned asked : List Peer) (past : List QueryEnd) : Prop where
  ascending : Ascending l.target l.peers
  peers : ∀ p, p ∈ l.peers ↔ p ∈ firstOfEach learned
  states : ∀ c ∈ l.candidates, c.state = stateIn asked past c.peer.id
  known : ∀ p ∈ asked, p ∈ l.peers
  ended : ∀ e ∈ past, ∃ p ∈ asked, p.id = e.1
  once : (past.map (·.1)).Nodup

/-- The counts are of no account. -/
theorem Recalls.counted {l : Lookup} {learned asked : List Peer} {past : List QueryEnd}
    (h : l.Recalls learned asked past) (stats : LookupStats) :
    { l with stats }.Recalls learned asked past :=
  ⟨h.ascending, h.peers, h.states, h.known, h.ended, h.once⟩

theorem stateIn_eq_pending {asked : List Peer} {past : List QueryEnd} {id : NodeId}
    (h : ∀ e ∈ past, ∃ p ∈ asked, p.id = e.1) :
    stateIn asked past id = .pending ↔ ∀ p ∈ asked, p.id ≠ id := by
  unfold stateIn
  cases hf : past.find? (·.1 == id) with
  | some e =>
    obtain ⟨p, hp, heq⟩ := h e (List.mem_of_find?_eq_some hf)
    have hid : e.1 = id := by simpa using List.find?_some hf
    have hno : QueryState.ofReply e.2 ≠ .pending := by
      cases e.2 <;> simp [QueryState.ofReply]
    constructor
    · exact fun hc => absurd hc hno
    · exact fun hall => absurd (heq.trans hid) (hall p hp)
  | none => simp

theorem stateIn_eq_querying {asked : List Peer} {past : List QueryEnd} {id : NodeId} :
    stateIn asked past id = .querying ↔ (∃ p ∈ asked, p.id = id) ∧ ∀ e ∈ past, e.1 ≠ id := by
  unfold stateIn
  cases hf : past.find? (·.1 == id) with
  | some e =>
    have hid : e.1 = id := by simpa using List.find?_some hf
    have hno : QueryState.ofReply e.2 ≠ .querying := by
      cases e.2 <;> simp [QueryState.ofReply]
    constructor
    · exact fun hc => absurd hc hno
    · exact fun hall => absurd hid (hall.2 e (List.mem_of_find?_eq_some hf))
  | none =>
    have hall : ∀ e ∈ past, e.1 ≠ id := by simpa using hf
    rw [and_iff_left hall]
    simp

theorem stateIn_eq_failed {asked : List Peer} {past : List QueryEnd} {p : Peer}
    (hn : (past.map (·.1)).Nodup) :
    stateIn asked past p.id = .failed ↔ failedIn past p = true := by
  unfold stateIn failedIn
  refine Iff.trans ?_ List.any_eq_true.symm
  cases hf : past.find? (·.1 == p.id) with
  | some e =>
    have hid : e.1 = p.id := by simpa using List.find?_some hf
    have he := List.mem_of_find?_eq_some hf
    have hsame : ∀ e' ∈ past, e'.1 = p.id → e' = e :=
      fun e' he' hid' => List.inj_on_of_nodup_map hn he' he (hid'.trans hid.symm)
    constructor
    · intro hstate
      refine ⟨e, he, ?_⟩
      cases hreply : e.2 with
      | none => simp [hid]
      | some reply =>
        have hresponded : QueryState.ofReply e.2 = .failed := hstate
        rw [hreply] at hresponded
        cases hresponded
    · rintro ⟨e', he', hnone⟩
      rw [Bool.and_eq_true, beq_iff_eq, Option.isNone_iff_eq_none] at hnone
      rw [hsame e' he' hnone.1] at hnone
      show QueryState.ofReply e.2 = .failed
      rw [hnone.2]
      rfl
  | none =>
    have hall : ∀ e ∈ past, e.1 ≠ p.id := by simpa using hf
    constructor
    · intro hstate
      dsimp only at hstate
      split at hstate <;> cases hstate
    · rintro ⟨e, he, hnone⟩
      rw [Bool.and_eq_true, beq_iff_eq] at hnone
      exact absurd hnone.1 (hall e he)

theorem replied_of_stateIn {asked : List Peer} {past : List QueryEnd} {id : NodeId}
    (h : stateIn asked past id = .responded) : ∃ reply, (id, some reply) ∈ past := by
  unfold stateIn at h
  split at h
  · rename_i e hf
    have hid : e.1 = id := by simpa using List.find?_some hf
    have he := List.mem_of_find?_eq_some hf
    obtain ⟨id', reply⟩ := e
    obtain rfl : id' = id := hid
    cases reply with
    | some reply => exact ⟨reply, he⟩
    | none => cases h
  · split at h <;> cases h

/-- A query is outstanding when its node was asked and the query has not ended. -/
theorem Recalls.isQuerying_iff {l : Lookup} {learned asked : List Peer} {past : List QueryEnd}
    (h : l.Recalls learned asked past) {id : NodeId} :
    l.isQuerying id = true ↔ (∃ p ∈ asked, p.id = id) ∧ ∀ e ∈ past, e.1 ≠ id := by
  rw [← stateIn_eq_querying]
  unfold isQuerying
  rw [List.any_eq_true]
  constructor
  · rintro ⟨c, hc, hquery⟩
    rw [Bool.and_eq_true, beq_iff_eq, beq_iff_eq] at hquery
    rw [← hquery.1, ← h.states c hc]
    exact hquery.2
  · intro hstate
    obtain ⟨p, hp, rfl⟩ := (stateIn_eq_querying.1 hstate).1
    obtain ⟨c, hc, hcp⟩ := List.mem_map.1 (h.known p hp)
    refine ⟨c, hc, ?_⟩
    rw [Bool.and_eq_true, beq_iff_eq, beq_iff_eq, h.states c hc, hcp]
    exact ⟨rfl, hstate⟩

/-- An asked node was learned of. -/
theorem Recalls.learned_of_asked {l : Lookup} {learned asked : List Peer} {past : List QueryEnd}
    (h : l.Recalls learned asked past) {p : Peer} (hp : p ∈ asked) : p ∈ learned :=
  List.mem_of_find?_eq_some (mem_firstOfEach.1 ((h.peers p).1 (h.known p hp)))

/-- The lookup learns of one more node. -/
theorem Recalls.insert {l : Lookup} {learned asked : List Peer} {past : List QueryEnd}
    (h : l.Recalls learned asked past) (p : Peer) :
    Recalls { l with candidates := insertPeer l.target p l.candidates } (learned ++ [p]) asked
      past := by
  obtain ⟨hasc, hmem⟩ := ascending_insertPeer p h.ascending
  have hids : p.id ∉ l.candidates.map (·.peer.id) ↔ ∀ q ∈ learned, q.id ≠ p.id := by
    rw [← not_iff_not, not_not]
    simp only [not_forall, not_not, exists_prop]
    rw [← exists_mem_firstOfEach]
    constructor
    · intro hp
      obtain ⟨c, hc, heq⟩ := List.mem_map.1 hp
      exact ⟨c.peer, (h.peers _).1 (List.mem_map_of_mem hc), heq⟩
    · rintro ⟨q, hq, heq⟩
      obtain ⟨c, hc, rfl⟩ := List.mem_map.1 ((h.peers q).2 hq)
      exact List.mem_map.2 ⟨c, hc, heq⟩
  refine ⟨hasc, fun q => ?_, fun c hc => ?_, fun q hq => ?_, h.ended, h.once⟩
  · have hq : q ∈ (insertPeer l.target p l.candidates).map (·.peer) ↔
        q ∈ l.peers ∨ (q = p ∧ p.id ∉ l.candidates.map (·.peer.id)) := by
      constructor
      · intro hq
        obtain ⟨c, hc, rfl⟩ := List.mem_map.1 hq
        rcases (hmem c).1 hc with hc | ⟨rfl, hnew⟩
        · exact .inl (List.mem_map_of_mem hc)
        · exact .inr ⟨rfl, hnew⟩
      · rintro (hq | ⟨rfl, hnew⟩)
        · obtain ⟨c, hc, rfl⟩ := List.mem_map.1 hq
          exact List.mem_map_of_mem ((hmem c).2 (.inl hc))
        · exact List.mem_map.2 ⟨_, (hmem _).2 (.inr ⟨rfl, hnew⟩), rfl⟩
    show q ∈ (insertPeer l.target p l.candidates).map (·.peer) ↔ _
    rw [hq, h.peers, hids, mem_firstOfEach_concat]
  · rcases (hmem c).1 hc with hc | ⟨rfl, hnew⟩
    · exact h.states c hc
    · refine ((stateIn_eq_pending h.ended).2 fun q hq heq => hnew ?_).symm
      obtain ⟨d, hd, hdq⟩ := List.mem_map.1 (h.known q hq)
      exact List.mem_map.2 ⟨d, hd, hdq ▸ heq⟩
  · obtain ⟨c, hc, rfl⟩ := List.mem_map.1 (h.known q hq)
    exact List.mem_map_of_mem ((hmem c).2 (.inl hc))

theorem Recalls.learn {l : Lookup} {learned asked : List Peer} {past : List QueryEnd}
    (h : l.Recalls learned asked past) (peers : List Peer) :
    (l.learn peers).Recalls (learned ++ peers.filter (·.id != l.localId)) asked past := by
  unfold Lookup.learn
  generalize peers.filter (·.id != l.localId) = others
  induction others generalizing l learned with
  | nil =>
    rw [List.append_nil]
    exact h
  | cons p rest ih =>
    have hnext := ih (h.insert p)
    rw [List.append_assoc] at hnext
    exact hnext

/-- An outstanding query ends. -/
theorem Recalls.mark_ended {l : Lookup} {learned asked : List Peer} {past : List QueryEnd}
    (h : l.Recalls learned asked past) {id : NodeId} (hq : l.isQuerying id = true)
    (reply : Option GetReply) :
    (l.mark id (.ofReply reply)).Recalls learned asked ((id, reply) :: past) := by
  obtain ⟨c, hc, hquery⟩ := List.any_eq_true.1 hq
  simp only [Bool.and_eq_true, beq_iff_eq] at hquery
  obtain ⟨rfl, hstate⟩ := hquery
  rw [h.states c hc, stateIn_eq_querying] at hstate
  refine ⟨?_, ?_, fun d hd => ?_, ?_, ?_, ?_⟩
  · rw [peers_mark]
    exact h.ascending
  · rw [peers_mark]
    exact h.peers
  · unfold stateIn
    rw [List.find?_cons]
    rcases mem_mark hd with ⟨hid, hd⟩ | ⟨hid, hd⟩
    · rw [hid, beq_self_eq_true]
      exact hd
    · rw [beq_eq_false_iff_ne.2 fun e => hid e.symm]
      exact h.states d hd
  · rw [peers_mark]
    exact h.known
  · intro e he
    rcases List.mem_cons.1 he with rfl | he
    · exact hstate.1
    · exact h.ended e he
  · rw [List.map_cons, List.nodup_cons]
    refine ⟨fun hmem => ?_, h.once⟩
    obtain ⟨e, he, heq⟩ := List.mem_map.1 hmem
    exact hstate.2 e he heq

/-- A node is asked. -/
theorem Recalls.mark_asked {l : Lookup} {learned asked : List Peer} {past : List QueryEnd}
    (h : l.Recalls learned asked past) {c : Candidate} (hc : c ∈ l.candidates)
    (hp : c.state = .pending) :
    (l.mark c.peer.id .querying).Recalls learned (asked ++ [c.peer]) past := by
  rw [h.states c hc, stateIn_eq_pending h.ended] at hp
  refine ⟨?_, ?_, fun d hd => ?_, ?_, ?_, h.once⟩
  · rw [peers_mark]
    exact h.ascending
  · rw [peers_mark]
    exact h.peers
  · rcases mem_mark hd with ⟨hid, hd⟩ | ⟨hid, hd⟩
    · rw [hd, hid]
      refine (stateIn_eq_querying.2 ⟨⟨c.peer, by simp, rfl⟩, fun e he heq => ?_⟩).symm
      obtain ⟨p, hp', hpe⟩ := h.ended e he
      exact hp p hp' (hpe.trans heq)
    · rw [h.states d hd]
      unfold stateIn
      rw [List.any_append]
      have hno : ([c.peer].any fun p => p.id == d.peer.id) = false := by
        simpa using fun e : c.peer.id = d.peer.id => hid e.symm
      rw [hno, Bool.or_false]
  · intro p hp
    rw [peers_mark]
    rcases List.mem_append.1 hp with hp | hp
    · exact h.known p hp
    · rw [List.mem_singleton.1 hp]
      exact List.mem_map_of_mem hc
  · intro e he
    obtain ⟨p, hp, heq⟩ := h.ended e he
    exact ⟨p, List.mem_append_left _ hp, heq⟩

/-! ## 3. Asking -/

theorem mem_window {l : Lookup} {c : Candidate} (h : c ∈ l.window) :
    c ∈ l.candidates ∧ c.state ≠ .failed := by
  have hf := List.mem_filter.1 (List.mem_of_mem_take h)
  exact ⟨hf.1, by simpa using hf.2⟩

theorem next?_eq_some {l : Lookup} {p : Peer} (h : l.next? = some p) :
    ∃ c ∈ l.window, c.state = .pending ∧ c.peer = p := by
  obtain ⟨c, hc, rfl⟩ := Option.map_eq_some_iff.1 h
  exact ⟨c, List.mem_of_find?_eq_some hc, by simpa using List.find?_some hc, rfl⟩

theorem next?_eq_none {l : Lookup} (h : l.next? = none) :
    ∀ c ∈ l.window, c.state ≠ .pending := by
  have hnone := Option.map_eq_none_iff.1 h
  simpa using hnone

theorem outstanding_eq_zero {l : Lookup} :
    l.outstanding = 0 ↔ ∀ c ∈ l.candidates, c.state ≠ .querying := by
  unfold outstanding
  rw [List.countP_eq_zero]
  simp

theorem ask_succ {slots : Nat} {l : Lookup} {p : Peer} (h : l.next? = some p) :
    ask (slots + 1) l =
      let rest := ask slots { l.mark p.id .querying with
        stats := { l.stats with tried := l.stats.tried + 1 } }
      (rest.1, p :: rest.2) := by
  rw [ask, h]
  rfl

theorem ask_of_next?_none {slots : Nat} {l : Lookup} (h : l.next? = none) :
    ask slots l = (l, []) := by
  cases slots with
  | zero => rfl
  | succ n => rw [ask, h]

/-- Asking goes on until no slot is left or no node that counts is left to ask. Nobody is asked
    whose query has ended. -/
theorem Recalls.ask {l : Lookup} {learned asked : List Peer} {past : List QueryEnd}
    (h : l.Recalls learned asked past) (slots : Nat) :
    (ask slots l).1.Recalls learned (asked ++ (ask slots l).2) past ∧
      (∀ p ∈ (ask slots l).2, ∀ e ∈ past, e.1 ≠ p.id) ∧
      ((ask slots l).2.length = slots ∨ (ask slots l).1.next? = none) := by
  induction slots generalizing l asked with
  | zero =>
    refine ⟨?_, fun p hp => (nomatch hp), .inl rfl⟩
    show l.Recalls learned (asked ++ []) past
    rw [List.append_nil]
    exact h
  | succ slots ih =>
    cases hn : l.next? with
    | none =>
      rw [ask_of_next?_none hn, List.append_nil]
      exact ⟨h, fun p hp => (nomatch hp), .inr hn⟩
    | some p =>
      obtain ⟨c, hc, hp, rfl⟩ := next?_eq_some hn
      have hmarked := h.mark_asked (mem_window hc).1 hp
      rw [ask_succ hn]
      obtain ⟨hnext, hnew, hend⟩ :=
        ih (hmarked.counted { l.stats with tried := l.stats.tried + 1 })
      rw [List.append_assoc] at hnext
      refine ⟨hnext, ?_, hend.imp_left fun hlen => ?_⟩
      · intro q hq e he
        rcases List.mem_cons.1 hq with rfl | hq
        · rw [h.states c (mem_window hc).1, stateIn_eq_pending h.ended] at hp
          obtain ⟨r, hr, heq⟩ := h.ended e he
          exact heq ▸ hp r hr
        · exact hnew q hq e he
      · rw [List.length_cons, hlen]

theorem settings_ask (slots : Nat) (l : Lookup) : (Lookup.ask slots l).1.settings = l.settings := by
  induction slots generalizing l with
  | zero => rfl
  | succ slots ih =>
    cases hn : l.next? with
    | none => rw [ask_of_next?_none hn]
    | some p =>
      rw [ask_succ hn]
      exact ih _

theorem settings_proceed (l : Lookup) (events : List LookupEvent) :
    (l.proceed events).lookup.settings = l.settings := by
  unfold proceed
  dsimp only
  split <;> exact settings_ask _ l

theorem proceed_lookup (l : Lookup) (events : List LookupEvent) :
    (l.proceed events).lookup = (Lookup.ask (max l.alpha 1 - l.outstanding) l).1 ∧
      (l.proceed events).queries = (Lookup.ask (max l.alpha 1 - l.outstanding) l).2 := by
  unfold proceed
  dsimp only
  split <;> exact ⟨rfl, rfl⟩

/-- The stall is reported exactly when no query is outstanding. -/
theorem stalled_mem_proceed {l : Lookup} {events : List LookupEvent} {closest : List Peer}
    (hno : .stalled closest ∉ events) : .stalled closest ∈ (l.proceed events).events ↔
      (l.proceed events).lookup.outstanding = 0 ∧
        closest = (l.proceed events).lookup.closest := by
  unfold proceed
  dsimp only
  split
  · rename_i h
    simp [hno, h]
  · rename_i h
    simp [hno, h]

/-- When no query is outstanding after asking, no node that counts is left to ask. -/
theorem Recalls.proceed {l : Lookup} {learned asked : List Peer} {past : List QueryEnd}
    (h : l.Recalls learned asked past) (events : List LookupEvent) :
    (l.proceed events).lookup.Recalls learned (asked ++ (l.proceed events).queries) past ∧
      ((l.proceed events).lookup.outstanding = 0 →
        (l.proceed events).lookup.next? = none) := by
  obtain ⟨hlookup, hqueries⟩ := proceed_lookup l events
  rw [hlookup, hqueries]
  obtain ⟨hnext, hnew, hend⟩ := h.ask (max l.alpha 1 - l.outstanding)
  refine ⟨hnext, fun hzero => hend.resolve_left fun hlen => ?_⟩
  rw [outstanding_eq_zero] at hzero
  -- All that were asked have answered or failed, so nobody was asked just now.
  have hquiet : ∀ p ∈ asked ++ (Lookup.ask (max l.alpha 1 - l.outstanding) l).2,
      ∃ e ∈ past, e.1 = p.id := by
    intro p hp
    obtain ⟨c, hc, rfl⟩ := List.mem_map.1 (hnext.known p hp)
    have hstate := hzero c hc
    rw [hnext.states c hc] at hstate
    by_contra hall
    simp only [not_exists, not_and] at hall
    exact hstate (stateIn_eq_querying.2 ⟨⟨c.peer, hp, rfl⟩, hall⟩)
  have hbefore : l.outstanding = 0 := by
    rw [outstanding_eq_zero]
    intro c hc hquery
    rw [h.states c hc, stateIn_eq_querying] at hquery
    obtain ⟨⟨p, hp, heq⟩, hall⟩ := hquery
    obtain ⟨e, he, hid⟩ := hquiet p (List.mem_append_left _ hp)
    exact hall e he (hid.trans heq)
  have hslots : 0 < max l.alpha 1 - l.outstanding := by omega
  rw [← hlen] at hslots
  obtain ⟨p, hp⟩ := List.exists_mem_of_length_pos hslots
  obtain ⟨e, he, hid⟩ := hquiet p (List.mem_append_right _ hp)
  exact hnew p hp e he hid

end Lookup

/-! ## 4. Steps -/

/-- What is true of a step of a lookup. -/
structure LookupStep.Tells (step : LookupStep)
    (settings : NodeId × NodeId × Option Sequence × Nat × Nat) (learned asked : List Peer)
    (past : List QueryEnd) : Prop where
  settings : step.lookup.settings = settings
  recalls : step.lookup.Recalls learned asked past
  exhausted : step.lookup.outstanding = 0 → step.lookup.next? = none
  stalled : ∀ closest, .stalled closest ∈ step.events ↔
    step.lookup.outstanding = 0 ∧ closest = step.lookup.closest

namespace Lookup

theorem Recalls.tells {l : Lookup} {learned asked : List Peer} {past : List QueryEnd}
    (h : l.Recalls learned asked past) {events : List LookupEvent}
    (hno : ∀ closest, .stalled closest ∉ events) :
    (l.proceed events).Tells l.settings learned (asked ++ (l.proceed events).queries) past where
  settings := settings_proceed l events
  recalls := (h.proceed events).1
  exhausted := (h.proceed events).2
  stalled closest := stalled_mem_proceed (hno closest)

/-- A lookup whose query has ended, before it asks on. -/
def noted (l : Lookup) (id : NodeId) : Option GetReply → Lookup
  | some reply => (l.accept id reply).1
  | none => l.mark id .failed

theorem settings_noted (l : Lookup) (id : NodeId) (reply : Option GetReply) :
    (l.noted id reply).settings = l.settings := by
  cases reply <;> rfl

theorem answer_eq_proceed {l : Lookup} {id : NodeId} (hq : l.isQuerying id = true)
    (reply : Option GetReply) : ∃ events, (∀ closest, .stalled closest ∉ events) ∧
      l.answer id reply = (l.noted id reply).proceed events := by
  unfold answer
  rw [if_pos hq]
  cases reply with
  | none => exact ⟨[], fun closest h => (nomatch h), rfl⟩
  | some reply =>
    refine ⟨(l.accept id reply).2, fun closest h => ?_, rfl⟩
    unfold accept at h
    dsimp only at h
    split at h
    · split at h
      · cases List.mem_singleton.1 h
      · cases h
    · cases h

theorem Recalls.noted {l : Lookup} {learned asked : List Peer} {past : List QueryEnd}
    (h : l.Recalls learned asked past) {id : NodeId} (hq : l.isQuerying id = true)
    (reply : Option GetReply) : (l.noted id reply).Recalls
      (learned ++ ((reply.map (·.nodes)).getD []).filter (·.id != l.localId)) asked
      ((id, reply) :: past) := by
  have hmark := h.mark_ended hq reply
  cases reply with
  | none =>
    show (l.mark id .failed).Recalls (learned ++ []) asked _
    rw [List.append_nil]
    exact hmark
  | some reply =>
    have hcounted := hmark.counted { l.stats with responses := l.stats.responses + 1 }
    exact hcounted.learn reply.nodes

end Lookup

/-- What a lookup knows after any run is told by its history. -/
theorem LookupRun.tells {localId target : NodeId} {known : Option Sequence} {k alpha : Nat}
    {seeds : List Peer} {past : List QueryEnd} {asked : List Peer} {step : LookupStep}
    (h : LookupRun (.ofSeeds localId target known k alpha seeds) past asked step) :
    step.Tells (localId, target, known, k, alpha) (learnedIn localId seeds past) asked past := by
  induction h with
  | begins =>
    let bare : Lookup := ⟨localId, target, known, k, alpha, [], ⟨0, 0⟩⟩
    have hbare : bare.Recalls [] [] [] :=
      ⟨List.Pairwise.nil, fun p => Iff.rfl, fun c hc => (nomatch hc), fun p hp => (nomatch hp),
        fun e he => (nomatch he), List.nodup_nil⟩
    exact (hbare.learn seeds).tells fun closest h => nomatch h
  | @ends past asked step hrun id reply hq ih =>
    obtain ⟨events, hno, heq⟩ := Lookup.answer_eq_proceed hq reply
    have hlocal : step.lookup.localId = localId := congrArg Prod.fst ih.settings
    have hnoted := ih.recalls.noted hq reply
    rw [hlocal] at hnoted
    have htells := hnoted.tells hno
    rw [Lookup.settings_noted, ih.settings, ← heq] at htells
    exact htells

end SignedRecords
