import SignedRecords.Proofs.Convergence
import SignedRecords.Proofs.Networks
import SignedRecords.Proofs.Stall

/-!
# Lookups in a network

A lookup asks nodes of a network. Each query is handled by its node at some moment and comes back
at a later one, and in between and in any order the nodes handle other messages, which change their
tables. Where the tables cover a crowd to begin with, all replies come from tables that do, and the
lookup finds the nodes of the crowd that are nearest to its target.

Main statement: `lookup_converges`.
-/

namespace SignedRecords

open Lookup (distance)
open RoutingTable (nearestOf)
open Simulation (Network)

/-! ## 1. Walks -/

/-- Who a peer is and where. -/
def Peer.contact (p : Peer) : NodeId × Address := (p.id, p.addr)

/-- Lists of the same ids in the same order are of the same contacts when each id has one. -/
theorem map_eq_of_ids {a b : List Peer}
    (h : ∀ p ∈ a, ∀ q ∈ b, p.id = q.id → p.contact = q.contact)
    (hids : a.map (·.id) = b.map (·.id)) : a.map Peer.contact = b.map Peer.contact := by
  induction a generalizing b with
  | nil =>
    rw [List.map_nil, eq_comm, List.map_eq_nil_iff] at hids
    rw [hids]
  | cons p rest ih =>
    obtain ⟨q, more, rfl, hid, hmore⟩ := List.map_eq_cons_iff.1 hids.symm
    rw [List.map_cons, List.map_cons, h p List.mem_cons_self q List.mem_cons_self hid.symm,
      ih (fun p hp q hq => h p (List.mem_cons_of_mem _ hp) q (List.mem_cons_of_mem _ hq))
        hmore.symm]

/-- A lookup under way in a network. -/
structure Walk where
  network : LocalNetwork
  /-- The last step of the lookup. -/
  step : LookupStep
  /-- The nodes that were asked. -/
  asked : List Peer
  /-- The queries that have ended, the last one first. -/
  past : List QueryEnd
  /-- Replies that have not arrived. -/
  underway : List QueryEnd

namespace Walk

/-- A lookup begins. -/
def begin (network : LocalNetwork) (l : Lookup) : Walk :=
  ⟨network, l.begin, l.begin.queries, [], []⟩

/-- A reply arrives. -/
def arrive (w : Walk) (id : NodeId) (reply : Option GetReply) : Walk :=
  let step := w.step.lookup.answer id reply
  { w with
    step
    asked := w.asked ++ step.queries
    past := (id, reply) :: w.past
    underway := w.underway.filter (·.1 != id) }

/-- A query is handled and its reply arrives at once. -/
def serve (w : Walk) (asker : Peer) (now : Stamp) (peer : Peer) (reply : GetReply) : Walk :=
  arrive
    { w with
      network := (w.network.deliver now asker.addr peer.addr
        (.get asker w.step.lookup.target w.step.lookup.known 0)).1
      underway := (peer.id, some reply) :: w.underway }
    peer.id (some reply)

end Walk

namespace Surroundings

/-- What happens in the network while a lookup of `asker` waits: others send messages, or a query of
    the lookup is handled and its reply sets out. -/
inductive Turn (s : Surroundings) (asker : Peer) : Walk → Walk → Prop where
  | others {w : Walk} {n : LocalNetwork} (h : s.Traffic w.network n) :
    Turn s asker w { w with network := n }
  | handles {w : Walk} {now : Stamp} {peer : Peer} {n : LocalNetwork} {reply : Option GetReply}
      (hnow : s.Timely now w.network) (hpeer : peer ∈ w.asked)
      (hopen : w.step.lookup.isQuerying peer.id = true)
      (hnew : ∀ e ∈ w.underway, e.1 ≠ peer.id)
      (hget : (Network.inProcess w.network).get now asker peer.addr w.step.lookup.target
        w.step.lookup.known = (.inProcess n, reply)) :
    Turn s asker w { w with network := n, underway := (peer.id, reply) :: w.underway }

/-- A lookup that has begun in a network, and what has happened since. No query is given up. -/
inductive WalkRun (s : Surroundings) (asker : Peer) (n : LocalNetwork) (l : Lookup) : Walk → Prop
    where
  | begins : WalkRun s asker n l (.begin n l)
  | turns {w w' : Walk} (h : WalkRun s asker n l w) (ht : s.Turn asker w w') :
    WalkRun s asker n l w'
  | arrives {w : Walk} (h : WalkRun s asker n l w) {id : NodeId} {reply : Option GetReply}
      (hreply : (id, reply) ∈ w.underway) : WalkRun s asker n l (w.arrive id reply)

/-- A query is handled and its reply arrives at once. -/
theorem WalkRun.serves {s : Surroundings} {asker : Peer} {n : LocalNetwork} {l : Lookup} {w : Walk}
    (h : WalkRun s asker n l w) {now : Stamp} (hnow : s.Timely now w.network) (peer : Peer)
    (reply : GetReply) (hpeer : peer ∈ w.asked)
    (hopen : w.step.lookup.isQuerying peer.id = true) (hnew : ∀ e ∈ w.underway, e.1 ≠ peer.id)
    (hget : ((Network.inProcess w.network).get now asker peer.addr w.step.lookup.target
      w.step.lookup.known).2 = some reply) : WalkRun s asker n l (w.serve asker now peer reply) :=
  (h.turns (.handles hnow hpeer hopen hnew
    (Prod.ext (Network.get_network _ _ _ _ _ _) hget))).arrives List.mem_cons_self

end Surroundings

/-! ## 2. What the nodes have told -/

/-- A query is outstanding when its node was asked and the query has not ended. -/
theorem LookupStep.Tells.isQuerying_iff {step : LookupStep}
    {settings : NodeId × NodeId × Option Sequence × Nat × Nat} {learned asked : List Peer}
    {past : List QueryEnd} (h : step.Tells settings learned asked past) {id : NodeId} :
    step.lookup.isQuerying id = true ↔
      (∃ p ∈ asked, p.id = id) ∧ ∀ e ∈ past, e.1 ≠ id :=
  h.recalls.isQuerying_iff

/-- An asked node was learned of, so it is not the asking one. -/
theorem LookupStep.Tells.learned_of_asked {step : LookupStep}
    {settings : NodeId × NodeId × Option Sequence × Nat × Nat} {learned asked : List Peer}
    {past : List QueryEnd} (h : step.Tells settings learned asked past) {p : Peer}
    (hp : p ∈ asked) : p ∈ learned :=
  h.recalls.learned_of_asked hp

namespace Surroundings

/-- A reply that comes from a table that covers the crowd. -/
structure Informs (s : Surroundings) (target : NodeId) (e : QueryEnd) : Prop where
  table : ∃ (t : RoutingTable) (item : Option Item), t.localId = e.1 ∧ t.bucketSize = s.k ∧
    t.Covers s.Lives (s.crowd.map (·.id)) ∧ e.2 = some ⟨item, t.nearest target s.k⟩

variable {s : Surroundings} {asker : Peer} {target : NodeId} {known : Option Sequence}
  {alpha : Nat} {seeds : List Peer} {n : LocalNetwork} {w : Walk}

/-- What lookups of a node for a target rely on. -/
structure Suits (s : Surroundings) (asker : Peer) (target : NodeId) : Prop where
  wide : 1 ≤ s.k
  distinct : (s.servers.map (·.id)).Nodup
  foreign : asker.id ∉ s.crowd.map (·.id)
  housed : s.Lives asker.id asker.addr
  guests : ∀ id ∈ s.guests, id = asker.id
  harmless : ∀ id addr, s.Lives id addr →
    Harmless target s.k (s.crowd.map (·.id)) asker.id id

theorem Suits.crowd_nodup {s : Surroundings} {asker : Peer} {target : NodeId}
    (h : s.Suits asker target) : (s.crowd.map (·.id)).Nodup :=
  h.distinct.sublist ((List.sublist_append_left _ _).map _)

/-- A network in which a lookup may begin, and nodes to begin with. -/
structure Opens (s : Surroundings) (asker : Peer) (target : NodeId) (seeds : List Peer)
    (n : LocalNetwork) : Prop where
  ready : s.Ready n
  suits : s.Suits asker target
  housed : ∀ p ∈ seeds, s.Lives p.id p.addr
  some : ∃ p ∈ seeds, p.id ≠ asker.id

/-- All nodes that were named live where it was said, and none is the asking one. -/
theorem lives_of_learned {past : List QueryEnd} (hseeds : ∀ p ∈ seeds, s.Lives p.id p.addr)
    (hpast : ∀ e ∈ past, s.Informs target e) :
    ∀ p ∈ learnedIn asker.id seeds past, s.Lives p.id p.addr ∧ p.id ≠ asker.id := by
  induction past with
  | nil =>
    intro p hp
    obtain ⟨hp, hne⟩ := List.mem_filter.1 hp
    exact ⟨hseeds p hp, bne_iff_ne.1 hne⟩
  | cons e rest ih =>
    obtain ⟨id, reply⟩ := e
    intro p hp
    rcases List.mem_append.1 hp with hp | hp
    · exact ih (fun e he => hpast e (List.mem_cons_of_mem _ he)) p hp
    · obtain ⟨hp, hne⟩ := List.mem_filter.1 hp
      obtain ⟨t, item, -, -, hcovers, hreply⟩ := (hpast _ List.mem_cons_self).table
      refine ⟨hcovers.entries p ?_, bne_iff_ne.1 hne⟩
      obtain rfl : reply = some ⟨item, t.nearest target s.k⟩ := hreply
      exact ((RoutingTable.mem_nearestOf hcovers.consistent.distinct).1 hp).1

/-- What is true of a lookup all along its way through a network. -/
structure Guides (s : Surroundings) (asker : Peer) (target : NodeId) (known : Option Sequence)
    (alpha : Nat) (seeds : List Peer) (w : Walk) : Prop where
  ready : s.Ready w.network
  run : LookupRun (.ofSeeds asker.id target known s.k alpha seeds) w.past w.asked w.step
  past : ∀ e ∈ w.past, s.Informs target e
  underway : ∀ e ∈ w.underway, s.Informs target e
  /-- The replies that have not arrived belong to queries that are outstanding. -/
  waiting : ∀ e ∈ w.underway, (∃ p ∈ w.asked, p.id = e.1) ∧ ∀ e' ∈ w.past, e'.1 ≠ e.1

/-- The node that is asked serves. -/
theorem Guides.server (h : s.Guides asker target known alpha seeds w)
    (ho : s.Opens asker target seeds n) {p : Peer} (hp : p ∈ w.asked) :
    ∃ v ∈ s.servers, v.id = p.id ∧ v.addr = p.addr := by
  obtain ⟨hlives, hne⟩ := lives_of_learned ho.housed h.past p (h.run.tells.learned_of_asked hp)
  exact hlives.resolve_right fun hguest => hne (ho.suits.guests _ hguest)

/-- A query asks for what the lookup was begun for. -/
theorem Guides.target_known (h : s.Guides asker target known alpha seeds w) :
    w.step.lookup.target = target ∧ w.step.lookup.known = known :=
  ⟨congrArg (·.2.1) h.run.tells.settings, congrArg (·.2.2.1) h.run.tells.settings⟩

/-- A query is handled by the node that serves at its address. -/
theorem Guides.handled (h : s.Guides asker target known alpha seeds w)
    (ho : s.Opens asker target seeds n) {now : Stamp} {peer : Peer} (hpeer : peer ∈ w.asked)
    {answered : Network × Option GetReply}
    (hget : (Network.inProcess w.network).get now asker peer.addr w.step.lookup.target
      w.step.lookup.known = answered) : ∃ v ∈ s.servers, v.id = peer.id ∧
        (Network.inProcess w.network).get now asker v.addr target known = answered := by
  obtain ⟨v, hv, hid, haddr⟩ := h.server ho hpeer
  rw [h.target_known.1, h.target_known.2, ← haddr] at hget
  exact ⟨v, hv, hid, hget⟩

/-- A query that is handled brings a reply that informs. -/
theorem Ready.informs {n' : LocalNetwork} (h : s.Ready n) {now : Stamp}
    (hnow : s.Timely now n) (hasker : s.Lives asker.id asker.addr) {v : Peer} (hv : v ∈ s.servers)
    {reply : Option GetReply}
    (hget : (Network.inProcess n).get now asker v.addr target known = (.inProcess n', reply)) :
    s.Ready n' ∧ s.Informs target (v.id, reply) := by
  obtain ⟨node, hnode, hattends⟩ := h.attends v hv
  have hnetwork := Network.get_network n now asker v.addr target known
  have hreply : ((Network.inProcess n).get now asker v.addr target known).2 = _ :=
    Network.get_reply h.online hnode
  rw [hget] at hnetwork hreply
  cases hnetwork
  have hafter : s.Attends v.id (node.handle now asker.addr (.get asker target known 0)).1 :=
    hattends.handle (hnow.fresh v hv node hnode) hasker
  have hnodes : reply = some ⟨node.items.get target known now,
      (node.handle now asker.addr (.get asker target known 0)).1.routing.nearest target s.k⟩ := by
    rw [← hafter.width]
    exact hreply
  exact ⟨h.deliver v.addr hnow hasker,
    ⟨_, _, hafter.localId, hafter.bucketSize, hafter.covers, hnodes⟩⟩

/-- The lookup itself does not move. -/
theorem Turn.step_eq {w w' : Walk} (h : s.Turn asker w w') :
    w'.step = w.step ∧ w'.past = w.past := by
  cases h <;> exact ⟨rfl, rfl⟩

theorem WalkRun.guides (ho : s.Opens asker target seeds n)
    (h : s.WalkRun asker n (.ofSeeds asker.id target known s.k alpha seeds) w) :
    s.Guides asker target known alpha seeds w := by
  induction h with
  | begins =>
    exact ⟨ho.ready, .begins, fun e he => (nomatch he), fun e he => (nomatch he),
      fun e he => (nomatch he)⟩
  | @turns w w' _ ht ih =>
    cases ht with
    | others htraffic => exact { ih with ready := ih.ready.traffic htraffic }
    | @handles now peer n' reply hnow hpeer hopen hnew hget =>
      obtain ⟨v, hv, hid, hget⟩ := ih.handled ho hpeer hget
      obtain ⟨hafter, hinforms⟩ := ih.ready.informs hnow ho.suits.housed hv hget
      rw [hid] at hinforms
      refine ⟨hafter, ih.run, ih.past, fun e he => ?_, fun e he => ?_⟩
      · rcases List.mem_cons.1 he with rfl | he
        · exact hinforms
        · exact ih.underway e he
      · rcases List.mem_cons.1 he with rfl | he
        · exact ih.run.tells.isQuerying_iff.1 hopen
        · exact ih.waiting e he
  | @arrives w _ id reply hreply ih =>
    have hopen := ih.run.tells.isQuerying_iff.2 (ih.waiting _ hreply)
    refine ⟨ih.ready, ih.run.ends reply hopen, fun e he => ?_, fun e he => ?_, fun e he => ?_⟩
    · rcases List.mem_cons.1 he with rfl | he
      · exact ih.underway _ hreply
      · exact ih.past e he
    · exact ih.underway e (List.mem_filter.1 he).1
    · obtain ⟨he, hne⟩ := List.mem_filter.1 he
      obtain ⟨⟨p, hp, hid⟩, hold⟩ := ih.waiting e he
      refine ⟨⟨p, List.mem_append_left _ hp, hid⟩, fun e' he' => ?_⟩
      rcases List.mem_cons.1 he' with rfl | he'
      · exact fun heq => bne_iff_ne.1 hne heq.symm
      · exact hold e' he'

/-- What traffic and queries keep is true of the network all along, and what queries bring from such
    a network is true of all replies. -/
theorem WalkRun.keeps (kept : LocalNetwork → Prop) (brings : QueryEnd → Prop)
    (ho : s.Opens asker target seeds n)
    (htraffic : ∀ n n', s.Traffic n n' → kept n → kept n')
    (hquery : ∀ now n v, v ∈ s.servers → s.Ready n → s.Timely now n → kept n →
      kept (n.deliver now asker.addr v.addr (.get asker target known 0)).1 ∧
        brings (v.id, ((Network.inProcess n).get now asker v.addr target known).2))
    (hkept : kept n)
    (h : s.WalkRun asker n (.ofSeeds asker.id target known s.k alpha seeds) w) :
    kept w.network ∧ (∀ e ∈ w.past, brings e) ∧ ∀ e ∈ w.underway, brings e := by
  induction h with
  | begins => exact ⟨hkept, fun e he => (nomatch he), fun e he => (nomatch he)⟩
  | @turns w w' hrun ht ih =>
    obtain ⟨ihkept, ihpast, ihunderway⟩ := ih
    cases ht with
    | others h => exact ⟨htraffic _ _ h ihkept, ihpast, ihunderway⟩
    | @handles now peer n' reply hnow hpeer hopen hnew hget =>
      have hguides := hrun.guides ho
      obtain ⟨v, hv, hid, hget⟩ := hguides.handled ho hpeer hget
      have hnetwork := Network.get_network w.network now asker v.addr target known
      obtain ⟨hafter, hbrings⟩ := hquery now w.network v hv hguides.ready hnow ihkept
      rw [hget] at hnetwork hbrings
      cases hnetwork
      refine ⟨hafter, ihpast, fun e he => ?_⟩
      rcases List.mem_cons.1 he with rfl | he
      · rw [← hid]
        exact hbrings
      · exact ihunderway e he
  | @arrives w _ id reply hreply ih =>
    obtain ⟨ihkept, ihpast, ihunderway⟩ := ih
    refine ⟨ihkept, fun e he => ?_, fun e he => ihunderway e (List.mem_filter.1 he).1⟩
    rcases List.mem_cons.1 he with rfl | he
    · exact ihunderway _ hreply
    · exact ihpast e he

/-! ## 3. The end of a lookup -/

/-- Nobody has failed, so every id that was named is there. -/
theorem mem_ids_survivors {localId : NodeId} {past : List QueryEnd}
    (hpast : ∀ e ∈ past, s.Informs target e) {p : Peer} (hp : p ∈ learnedIn localId seeds past) :
    p.id ∈ (survivors localId seeds past).map (·.id) := by
  obtain ⟨q, hq, hid⟩ := exists_mem_firstOfEach.2 ⟨p, hp, rfl⟩
  refine List.mem_map.2 ⟨q, List.mem_filter.2 ⟨hq, ?_⟩, hid⟩
  rw [Bool.not_eq_true', Bool.eq_false_iff]
  intro hfailed
  obtain ⟨e, he, hnone⟩ := List.any_eq_true.1 hfailed
  obtain ⟨t, item, -, -, -, hsome⟩ := (hpast e he).table
  rw [hsome] at hnone
  simp at hnone

section

variable (h : s.Guides asker target known alpha seeds w) (ho : s.Opens asker target seeds n)

include h

/-- A reply that has not arrived belongs to a query that is outstanding. -/
theorem Guides.outstanding_ne_zero {e : QueryEnd} (he : e ∈ w.underway) :
    w.step.lookup.outstanding ≠ 0 := by
  intro hzero
  have hopen := h.run.tells.isQuerying_iff.2 (h.waiting e he)
  obtain ⟨c, hc, hquery⟩ := List.any_eq_true.1 hopen
  rw [Bool.and_eq_true, beq_iff_eq, beq_iff_eq] at hquery
  exact Lookup.outstanding_eq_zero.1 hzero c hc hquery.2

include ho

theorem Guides.closest_eq (hzero : w.step.lookup.outstanding = 0) :
    w.step.lookup.closest = nearestOf (survivors asker.id seeds w.past) target s.k := by
  have htells := h.run.tells
  obtain ⟨hwindow, -⟩ := htells.closest_eq hzero
  rw [hwindow, htells.window_eq, Nat.max_eq_left ho.suits.wide]

omit ho in
/-- The nodes that a lookup hands over at its end have answered. -/
theorem Guides.answered (hzero : w.step.lookup.outstanding = 0) {p : Peer}
    (hp : p ∈ w.step.lookup.closest) : ∃ reply, (p.id, some reply) ∈ w.past := by
  have htells := h.run.tells
  obtain ⟨hwindow, hall⟩ := htells.closest_eq hzero
  rw [hwindow] at hp
  obtain ⟨c, hc, rfl⟩ := List.mem_map.1 hp
  have hstate := hall c hc
  rw [htells.recalls.states c (Lookup.mem_window hc).1] at hstate
  exact Lookup.replied_of_stateIn hstate

/-- At its end a lookup has heard the tables of the nearest nodes that it knows. -/
theorem Guides.told (hzero : w.step.lookup.outstanding = 0) :
    Told s.Lives (s.crowd.map (·.id)) s.k asker.id target (survivors asker.id seeds w.past) := by
  have hlearned : ∀ p ∈ survivors asker.id seeds w.past, s.Lives p.id p.addr ∧ p.id ≠ asker.id :=
    fun p hp => lives_of_learned ho.housed h.past p (mem_learnedIn_of_survivors hp)
  constructor
  case distinct => exact (nodup_firstOfEach _).sublist (List.filter_sublist.map _)
  case housed => exact fun p hp => (hlearned p hp).1
  case foreign => exact fun p hp => (hlearned p hp).2
  case told =>
    intro c hc
    rw [← h.closest_eq ho hzero] at hc
    obtain ⟨reply, hreply⟩ := h.answered hzero hc
    obtain ⟨t, item, hid, hsize, hcovers, heq⟩ := (h.past _ hreply).table
    refine ⟨t, hid, hsize, hcovers, fun p hp hne => ?_⟩
    cases heq
    exact mem_ids_survivors h.past (mem_learnedIn_of_reply hreply hp hne)

/-- The nodes that the lookup hands over are the nearest of the crowd, at their addresses. -/
theorem Guides.closest_contacts (hzero : w.step.lookup.outstanding = 0) :
    w.step.lookup.closest.map Peer.contact =
      (nearestOf s.crowd target s.k).map Peer.contact := by
  have htold := h.told ho hzero
  have hcrowd := ho.suits.crowd_nodup
  have hnames : survivors asker.id seeds w.past ≠ [] := by
    obtain ⟨p, hp, hne⟩ := ho.some
    have hmem := mem_ids_survivors h.past (mem_learnedIn_of_seed w.past hp hne)
    intro hnone
    rw [hnone] at hmem
    cases hmem
  have hids := htold.ids_closest ho.suits.harmless ho.suits.foreign hcrowd hnames
  rw [← h.closest_eq ho hzero] at hids
  -- An id of the crowd lives at one address only.
  have haddr : ∀ p ∈ w.step.lookup.closest, ∀ v ∈ nearestOf s.crowd target s.k, p.id = v.id →
      p.contact = v.contact := by
    intro p hp v hv hid
    rw [h.closest_eq ho hzero] at hp
    have hvcrowd := ((RoutingTable.mem_nearestOf hcrowd).1 hv).1
    have hpnames := ((RoutingTable.mem_nearestOf htold.distinct).1 hp).1
    have hvserver : v ∈ s.servers := List.mem_append_left _ hvcrowd
    rcases htold.housed p hpnames with ⟨u, hu, huid, huaddr⟩ | hguest
    · obtain rfl : u = v := List.inj_on_of_nodup_map ho.suits.distinct hu hvserver (huid.trans hid)
      exact Prod.ext hid huaddr.symm
    · exact absurd (ho.suits.guests _ hguest) (htold.foreign p hpnames)
  exact map_eq_of_ids haddr hids

/-- Each query that has ended was one to a node of its own. -/
theorem Guides.length_past_le :
    w.past.length ≤ s.servers.length := by
  have hrecalls := h.run.tells.recalls
  have hsub : w.past.map (·.1) ⊆ s.servers.map (·.id) := by
    intro id hid
    obtain ⟨e, he, rfl⟩ := List.mem_map.1 hid
    obtain ⟨p, hp, hpid⟩ := hrecalls.ended e he
    obtain ⟨v, hv, hvid, -⟩ := h.server ho hp
    exact List.mem_map.2 ⟨v, hv, hvid.trans hpid⟩
  have hle := (List.subperm_of_subset hrecalls.once hsub).length_le
  rwa [List.length_map, List.length_map] at hle

end

/-- The query to a node can end: its reply is under way, or sets out as soon as the query is
    handled. -/
def Answerable (s : Surroundings) (asker : Peer) (w : Walk) (p : Peer) : Prop :=
  (∃ reply, (p.id, some reply) ∈ w.underway) ∨
    ∀ now, s.Timely now w.network → ∃ n reply, (Network.inProcess w.network).get now asker p.addr
      w.step.lookup.target w.step.lookup.known = (.inProcess n, some reply)

/-- A lookup that has not come to its end is not stuck: some query is outstanding, and each of them
    can end with a reply. -/
structure GoesOn (s : Surroundings) (asker : Peer) (w : Walk) : Prop where
  unreported : ∀ closest, .stalled closest ∉ w.step.events
  outstanding : ∃ p ∈ w.asked, w.step.lookup.isQuerying p.id = true
  answerable : ∀ p ∈ w.asked, w.step.lookup.isQuerying p.id = true → s.Answerable asker w p

theorem Guides.goesOn (h : s.Guides asker target known alpha seeds w)
    (ho : s.Opens asker target seeds n) (hopen : w.step.lookup.outstanding ≠ 0) :
    s.GoesOn asker w := by
  have htells := h.run.tells
  constructor
  case unreported => exact fun closest hmem => hopen ((htells.stalled closest).1 hmem).1
  case outstanding =>
    by_contra hnone
    refine hopen (Lookup.outstanding_eq_zero.2 fun c hc hstate => hnone ?_)
    have hquery := Lookup.stateIn_eq_querying.1 ((htells.recalls.states c hc).symm.trans hstate)
    obtain ⟨p, hp, hid⟩ := hquery.1
    exact ⟨p, hp, htells.isQuerying_iff.2 ⟨⟨p, hp, rfl⟩, hid ▸ hquery.2⟩⟩
  case answerable =>
    intro p hp hquery
    refine or_iff_not_imp_left.2 fun _ now _ => ?_
    obtain ⟨v, hv, -, haddr⟩ := h.server ho hp
    obtain ⟨node, hnode, -⟩ := h.ready.attends v hv
    rw [haddr] at hnode
    have hreply : ((Network.inProcess w.network).get now asker p.addr w.step.lookup.target
        w.step.lookup.known).2 = _ := Network.get_reply h.ready.online hnode
    exact ⟨_, _, Prod.ext (Network.get_network _ _ _ _ _ _) hreply⟩

/-- An id that is no nearer than the nearest `k` of a crowd has at least `k` of it before it. -/
theorem le_rank_of_not_nearer {crowd : List Peer} {k : Nat} {id : NodeId}
    (hcrowd : (crowd.map (·.id)).Nodup) (hlarge : k ≤ crowd.length)
    (hid : id ∉ crowd.map (·.id))
    (hfar : ∀ v ∈ nearestOf crowd target k, distance target v.id ≤ distance target id) :
    k ≤ rank target (crowd.map (·.id)) id := by
  have hsub : (nearestOf crowd target k).map (·.id) ⊆ crowd.map (·.id) := by
    intro other hother
    obtain ⟨v, hv, rfl⟩ := List.mem_map.1 hother
    exact List.mem_map_of_mem ((RoutingTable.mem_nearestOf hcrowd).1 hv).1
  have hnear : ∀ other ∈ (nearestOf crowd target k).map (·.id),
      distance target other < distance target id := by
    intro other hother
    have hne : distance target other ≠ distance target id :=
      fun heq => hid (distance_inj.1 heq ▸ hsub hother)
    obtain ⟨v, hv, rfl⟩ := List.mem_map.1 hother
    have hle := hfar v hv
    omega
  have hle := length_le_rank (RoutingTable.ascending_nearestOf hcrowd k).ids_nodup hsub hnear
  rw [List.length_map, RoutingTable.length_nearestOf] at hle
  omega

/-- A crowd and one node that asks it; whatever is sent may be sent at any time. -/
def around (crowd : List Peer) (asker : Peer) (k : Nat) : Surroundings :=
  ⟨crowd, [], [asker.id], k, fun _ _ => True, fun _ => True⟩

theorem servers_around (crowd : List Peer) (asker : Peer) (k : Nat) :
    (around crowd asker k).servers = crowd := List.append_nil crowd

theorem suits_around {crowd : List Peer} {k : Nat} (hk : 1 ≤ k)
    (hids : (crowd.map (·.id)).Nodup) (hasker : asker.id ∉ crowd.map (·.id))
    (hfar : k ≤ crowd.length → ∀ v ∈ nearestOf crowd target k,
      distance target v.id ≤ distance target asker.id) :
    (around crowd asker k).Suits asker target where
  wide := hk
  distinct := by
    rw [servers_around]
    exact hids
  foreign := hasker
  housed := .inr (List.mem_singleton.2 rfl)
  guests id hid := List.mem_singleton.1 hid
  harmless id addr hlives := by
    rcases hlives with ⟨v, hv, rfl, -⟩ | hguest
    · rw [servers_around] at hv
      exact .inl (List.mem_map_of_mem hv)
    · obtain rfl := List.mem_singleton.1 hguest
      by_cases hlarge : k ≤ crowd.length
      · exact .inr (.inl (le_rank_of_not_nearer hids hlarge hasker (hfar hlarge)))
      · refine .inr (.inr ⟨rfl, ?_⟩)
        show (crowd.map (·.id)).length < k
        rw [List.length_map]
        omega

end Surroundings

/-- A lookup among nodes whose tables cover a crowd comes to an end, after at most one query to each
    node of the crowd, and hands over the nodes of the crowd that are nearest to its target, in
    increasing distance. This is so in whatever order the queries are handled and come back, and
    whatever else the nodes are sent in the meantime. -/
theorem lookup_converges (crowd : List Peer) (asker : Peer) (target : NodeId)
    (known : Option Sequence) (k alpha : Nat) (seeds : List Peer) (n : LocalNetwork) (w : Walk)
    (hk : 1 ≤ k) (hids : (crowd.map (·.id)).Nodup) (hasker : asker.id ∉ crowd.map (·.id))
    (hready : (Surroundings.around crowd asker k).Ready n)
    (hfar : k ≤ crowd.length → ∀ v ∈ nearestOf crowd target k,
      distance target v.id ≤ distance target asker.id)
    (hsome : seeds ≠ []) (hseeds : ∀ p ∈ seeds, ∃ v ∈ crowd, v.contact = p.contact)
    (hrun : (Surroundings.around crowd asker k).WalkRun asker n
      (.ofSeeds asker.id target known k alpha seeds) w) :
    w.past.length ≤ crowd.length ∧
      (w.step.lookup.outstanding ≠ 0 → (Surroundings.around crowd asker k).GoesOn asker w) ∧
      (w.step.lookup.outstanding = 0 → ∃ closest, .stalled closest ∈ w.step.events ∧
        closest.map Peer.contact = (nearestOf crowd target k).map Peer.contact ∧
        closest.length = min k crowd.length ∧
        closest.Pairwise fun p q => distance target p.id < distance target q.id) := by
  have hsuits := Surroundings.suits_around hk hids hasker hfar
  have hlives : ∀ p ∈ seeds, (Surroundings.around crowd asker k).Lives p.id p.addr := by
    intro p hp
    obtain ⟨v, hv, hvp⟩ := hseeds p hp
    exact .inl ⟨v, List.mem_append_left _ hv, congrArg Prod.fst hvp, congrArg Prod.snd hvp⟩
  have hseed : ∃ p ∈ seeds, p.id ≠ asker.id := by
    obtain ⟨p, hp⟩ := List.exists_mem_of_ne_nil _ hsome
    obtain ⟨v, hv, hvp⟩ := hseeds p hp
    refine ⟨p, hp, fun heq => hasker ?_⟩
    rw [← heq, ← show v.id = p.id from congrArg Prod.fst hvp]
    exact List.mem_map_of_mem hv
  have hopens : (Surroundings.around crowd asker k).Opens asker target seeds n :=
    ⟨hready, hsuits, hlives, hseed⟩
  have hguides := hrun.guides hopens
  refine ⟨?_, hguides.goesOn hopens, fun hzero => ?_⟩
  · have hle := hguides.length_past_le hopens
    rwa [Surroundings.servers_around] at hle
  · have hcontacts := hguides.closest_contacts hopens hzero
    refine ⟨_, (hguides.run.tells.stalled _).2 ⟨hzero, rfl⟩, hcontacts, ?_, ?_⟩
    · rw [← RoutingTable.length_nearestOf crowd target k, ← List.length_map (f := Peer.contact),
        hcontacts, List.length_map]
      rfl
    · rw [hguides.closest_eq hopens hzero]
      exact RoutingTable.ascending_nearestOf (hguides.told hopens hzero).distinct k

/-- Three nodes of which the first does not know the nearest one to the target, because its bucket
    holds another one of the same range. -/
theorem lookup_converges_over_three :
    ∃ (n : LocalNetwork) (w : Walk),
      (Surroundings.around [peerOf 1, peerOf 2, peerOf 3] (peerOf 9) 1).Ready n ∧
      (Surroundings.around [peerOf 1, peerOf 2, peerOf 3] (peerOf 9) 1).WalkRun (peerOf 9) n
        (.ofSeeds 9 2 none 1 3 [peerOf 1]) w ∧
      w.asked.map (·.id) = [1, 3, 2] ∧ w.step.lookup.outstanding = 0 ∧
      w.past.length ≤ 3 ∧
      (w.step.lookup.outstanding ≠ 0 →
        (Surroundings.around [peerOf 1, peerOf 2, peerOf 3] (peerOf 9) 1).GoesOn (peerOf 9) w) ∧
      (w.step.lookup.outstanding = 0 → ∃ closest, .stalled closest ∈ w.step.events ∧
        closest.map Peer.contact =
          (nearestOf [peerOf 1, peerOf 2, peerOf 3] 2 1).map Peer.contact ∧
        closest.length = min 1 3 ∧
        closest.Pairwise fun p q => distance 2 p.id < distance 2 q.id) := by
  let s := Surroundings.around [peerOf 1, peerOf 2, peerOf 3] (peerOf 9) 1
  let n := networkOf [(1, [3]), (2, [3, 1]), (3, [2, 1])]
  let w₀ : Walk := .begin n (.ofSeeds 9 2 none 1 3 [peerOf 1])
  let w₁ := w₀.serve (peerOf 9) default (peerOf 1) ⟨none, [peerOf 3]⟩
  let w₂ := w₁.serve (peerOf 9) default (peerOf 3) ⟨none, [peerOf 2]⟩
  let w₃ := w₂.serve (peerOf 9) default (peerOf 2) ⟨none, [peerOf 3]⟩
  have hready : s.Ready n := ready_networkOf rfl rfl (by decide +kernel) (by decide +kernel)
  have hnow₀ : s.Timely default n :=
    timely_networkOf rfl (by decide +kernel) (by decide +kernel) trivial
  have hnow₁ : s.Timely default w₁.network := hnow₀.deliver hready _ _ _ trivial
  have hrun₁ : s.WalkRun (peerOf 9) n (.ofSeeds 9 2 none 1 3 [peerOf 1]) w₁ :=
    Surroundings.WalkRun.begins.serves hnow₀ (peerOf 1) ⟨none, [peerOf 3]⟩
      (by decide +kernel) (by decide +kernel) (by decide +kernel)
      (Network.get_sorted [peerOf 3, peerOf 9] 1 rfl (by decide +kernel) (by decide +kernel))
  have hasker : s.Lives (peerOf 9).id (peerOf 9).addr := .inr (List.mem_singleton.2 rfl)
  have hready₁ : s.Ready w₁.network := hready.deliver _ hnow₀ hasker
  have hnow₂ : s.Timely default w₂.network := hnow₁.deliver hready₁ _ _ _ trivial
  have hrun₂ : s.WalkRun (peerOf 9) n (.ofSeeds 9 2 none 1 3 [peerOf 1]) w₂ :=
    hrun₁.serves hnow₁ (peerOf 3) ⟨none, [peerOf 2]⟩
      (by decide +kernel) (by decide +kernel) (by decide +kernel)
      (Network.get_sorted [peerOf 2, peerOf 1, peerOf 9] 1 rfl (by decide +kernel)
        (by decide +kernel))
  have hrun₃ : s.WalkRun (peerOf 9) n (.ofSeeds 9 2 none 1 3 [peerOf 1]) w₃ :=
    hrun₂.serves hnow₂ (peerOf 2) ⟨none, [peerOf 3]⟩
      (by decide +kernel) (by decide +kernel) (by decide +kernel)
      (Network.get_sorted [peerOf 3, peerOf 1, peerOf 9] 1 rfl (by decide +kernel)
        (by decide +kernel))
  have hfar : 1 ≤ 3 → ∀ v ∈ nearestOf [peerOf 1, peerOf 2, peerOf 3] 2 1,
      distance 2 v.id ≤ distance 2 (peerOf 9).id := by
    have hsorted := RoutingTable.eq_nearestOf_of_ascending
      (show Ascending 2 [peerOf 2, peerOf 3, peerOf 1] by decide +kernel)
      (show List.Perm _ [peerOf 1, peerOf 2, peerOf 3] by decide +kernel)
    rw [← hsorted]
    decide +kernel
  exact ⟨n, w₃, hready, hrun₃, by decide +kernel, by decide +kernel,
    lookup_converges [peerOf 1, peerOf 2, peerOf 3] (peerOf 9) 2 none 1 3 [peerOf 1] n w₃
      (by decide) (by decide +kernel) (by decide +kernel) hready hfar (by decide)
      (by decide +kernel) hrun₃⟩

end SignedRecords
