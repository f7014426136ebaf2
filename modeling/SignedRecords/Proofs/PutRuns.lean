import SignedRecords.Dht.Client.Put
import SignedRecords.Proofs.KeptItems

/-!
# Puts in a network

A put walks to the nodes nearest to the target of its item and sends them the item. While it does,
other messages are handled, and the answers come back in any order. If the put succeeds, some node
of the crowd among the nearest has kept the item, and from then on holds it or a newer one.

Main statement: `PutEnds.stored`.
-/

namespace SignedRecords

open RoutingTable (nearestOf)
open Simulation (Network)

/-! ## 1. Runs -/

namespace Surroundings

/-- A put of `asker` that has begun in a network, with the acknowledgements that have not
    arrived. -/
inductive PutRun (s : Surroundings) (asker : Peer) (n : LocalNetwork) (item : Item) (l : Lookup) :
    Walk → ItemPut → List (NodeId × Bool) → Prop where
  | begins {p : ItemPut} {queries : List Peer}
      (hp : (ItemPut.ofLookup item l).begin = .goesOn p queries) :
    PutRun s asker n item l (.begin n l) p []
  | turns {w w' : Walk} {p : ItemPut} {acks : List (NodeId × Bool)}
      (h : PutRun s asker n item l w p acks) (ht : s.Turn asker w w') :
    PutRun s asker n item l w' p acks
  /-- A reply to a query of the lookup arrives. -/
  | arrives {w : Walk} {p p' : ItemPut} {acks : List (NodeId × Bool)} {id : NodeId}
      {reply : Option GetReply} {queries : List Peer} (h : PutRun s asker n item l w p acks)
      (hreply : (id, reply) ∈ w.underway) (hp : p.answer id reply = .goesOn p' queries) :
    PutRun s asker n item l (w.arrive id reply) p' acks
  /-- The put reads a report. -/
  | reads {w : Walk} {p p' : ItemPut} {acks : List (NodeId × Bool)} {queries : List Peer}
      (h : PutRun s asker n item l w p acks) (hp : p.receive = .goesOn p' queries) :
    PutRun s asker n item l w p' acks
  /-- The put reads the stall; the client learns of the nodes, which are sent the item. -/
  | sends {w : Walk} {p p' : ItemPut} {acks : List (NodeId × Bool)} {nodes : List Peer}
      {now : Stamp} {n' : LocalNetwork} (h : PutRun s asker n item l w p acks)
      (hp : p.receive = .sends p' nodes) (hnow : s.Timely now w.network)
      (hlearn : (Network.inProcess w.network).learn asker nodes now = .inProcess n') :
    PutRun s asker n item l { w with network := n' } p' acks
  /-- A node handles the item that it was sent. -/
  | stores {w : Walk} {p : ItemPut} {acks : List (NodeId × Bool)} {waiting : List Peer}
      {tried count : Nat} {peer : Peer} {now : Stamp} {n' : LocalNetwork} {ok : Bool}
      (h : PutRun s asker n item l w p acks) (hphase : p.phase = .storing waiting tried count)
      (hpeer : peer ∈ waiting) (hnew : ∀ e ∈ acks, e.1 ≠ peer.id)
      (hnow : s.Timely now w.network)
      (hput : (Network.inProcess w.network).put now asker peer.addr p.item =
        (.inProcess n', ok)) :
    PutRun s asker n item l { w with network := n' } p ((peer.id, ok) :: acks)
  | acknowledges {w : Walk} {p p' : ItemPut} {acks : List (NodeId × Bool)} {id : NodeId} {ok : Bool}
      {queries : List Peer} (h : PutRun s asker n item l w p acks) (hack : (id, ok) ∈ acks)
      (hp : p.acknowledge id ok = .goesOn p' queries) :
    PutRun s asker n item l w p' (acks.filter (·.1 != id))

/-- The end of a put, with the network at that moment. -/
inductive PutEnds (s : Surroundings) (asker : Peer) (n : LocalNetwork) (item : Item) (l : Lookup) :
    LocalNetwork → Except TransportError LookupStats → Prop where
  /-- The lookup has found no node. -/
  | reads {w : Walk} {p : ItemPut} {acks : List (NodeId × Bool)}
      {result : Except TransportError LookupStats} {learned : List Peer}
      (h : PutRun s asker n item l w p acks) (hp : p.receive = .ends result learned) :
    PutEnds s asker n item l w.network result
  /-- The last node has answered. -/
  | acknowledges {w : Walk} {p : ItemPut} {acks : List (NodeId × Bool)} {id : NodeId} {ok : Bool}
      {result : Except TransportError LookupStats} {learned : List Peer}
      (h : PutRun s asker n item l w p acks) (hack : (id, ok) ∈ acks)
      (hp : p.acknowledge id ok = .ends result learned) :
    PutEnds s asker n item l w.network result
  /-- The deadline has come. -/
  | expires {w : Walk} {p : ItemPut} {acks : List (NodeId × Bool)}
      (h : PutRun s asker n item l w p acks) : PutEnds s asker n item l w.network p.expire

end Surroundings

/-! ## 2. What a step of a put does -/

namespace ItemPut

theorem receive_goesOn {p p' : ItemPut} {queries : List Peer} (h : p.receive = .goesOn p' queries) :
    p' = p ∨ ∃ item rest, p.phase = .searching (.candidate item :: rest) ∧
      p' = { p with phase := .searching rest } := by
  unfold receive at h
  split at h
  · rename_i item rest hphase
    cases h
    exact .inr ⟨item, rest, hphase, rfl⟩
  · cases h
  · cases h
  · cases h
    exact .inl rfl

theorem receive_sends {p p' : ItemPut} {nodes : List Peer} (h : p.receive = .sends p' nodes) :
    ∃ rest, p.phase = .searching (.stalled nodes :: rest) ∧
      p' = { p with phase := .storing nodes 0 0 } := by
  unfold receive at h
  split at h
  · cases h
  · cases h
  · rename_i closest rest _ hphase
    cases h
    exact ⟨rest, hphase, rfl⟩
  · cases h

theorem receive_ends {p : ItemPut} {result : Except TransportError LookupStats}
    {learned : List Peer} (h : p.receive = .ends result learned) :
    ∃ error, result = .error error := by
  unfold receive at h
  split at h
  · cases h
  · cases h
    exact ⟨_, rfl⟩
  · cases h
  · cases h

theorem answer_goesOn {p p' : ItemPut} {id : NodeId} {reply : Option GetReply}
    {queries : List Peer} (h : p.answer id reply = .goesOn p' queries) :
    (∃ mailbox, p.phase = .searching mailbox ∧
      p' = { p with
        lookup := (p.lookup.answer id reply).lookup
        phase := .searching (mailbox ++ (p.lookup.answer id reply).events) }) ∨
    ((∃ waiting tried acks, p.phase = .storing waiting tried acks) ∧ p' = p) := by
  unfold answer follow at h
  split at h
  · rename_i mailbox hphase
    cases h
    exact .inl ⟨mailbox, hphase, rfl⟩
  · rename_i waiting tried acks hphase
    cases h
    exact .inr ⟨⟨waiting, tried, acks, hphase⟩, rfl⟩

theorem acknowledge_goesOn {p p' : ItemPut} {id : NodeId} {ok : Bool} {queries : List Peer}
    (h : p.acknowledge id ok = .goesOn p' queries) :
    p' = p ∨ ∃ waiting tried acks, p.phase = .storing waiting tried acks ∧
      p' = { p with
        phase := .storing (waiting.filter (·.id != id)) (tried + 1)
          (if ok then acks + 1 else acks) } := by
  unfold acknowledge at h
  split at h
  · cases h
    exact .inl rfl
  · rename_i waiting tried acks hphase
    split at h
    · dsimp only at h
      split at h
      · cases h
      · cases h
        exact .inr ⟨waiting, tried, acks, hphase, rfl⟩
    · cases h
      exact .inl rfl

theorem acknowledge_ends {p : ItemPut} {id : NodeId} {ok : Bool}
    {result : Except TransportError LookupStats} {learned : List Peer}
    (h : p.acknowledge id ok = .ends result learned) :
    ∃ waiting tried acks, p.phase = .storing waiting tried acks ∧
      result = p.result (tried + 1) (if ok then acks + 1 else acks) := by
  unfold acknowledge at h
  split at h
  · cases h
  · rename_i waiting tried acks hphase
    split at h
    · dsimp only at h
      split at h
      · cases h
        exact ⟨waiting, tried, acks, hphase, rfl⟩
      · cases h
    · cases h

theorem result_ok {p : ItemPut} {tried acks : Nat} {stats : LookupStats}
    (h : p.result tried acks = .ok stats) : 0 < acks := by
  unfold result at h
  split at h
  · assumption
  · cases h

/-- The last node of a put answers. -/
theorem acknowledge_last {p : ItemPut} {peer : Peer} {tried acks : Nat}
    (h : p.phase = .storing [peer] tried acks) :
    p.acknowledge peer.id true = .ends (.ok (p.stats (tried + 1) (acks + 1))) [] := by
  simp [acknowledge, h, result]

theorem expire_ok {p : ItemPut} {stats : LookupStats} (h : p.expire = .ok stats) :
    ∃ waiting tried acks, p.phase = .storing waiting tried acks ∧ 0 < acks := by
  unfold expire at h
  split at h
  · cases h
  · rename_i waiting tried acks hphase
    split at h
    · exact ⟨waiting, tried, acks, hphase, ‹_›⟩
    · cases h

end ItemPut

namespace Surroundings

variable {s : Surroundings} {asker : Peer} {n : LocalNetwork} {item : Item}

/-- Reports of items are read, one after another. -/
theorem PutRun.readsAll {l found : Lookup} {w : Walk} {reports : List LookupEvent}
    {acks : List (NodeId × Bool)} (hno : ∀ closest, .stalled closest ∉ reports)
    (h : s.PutRun asker n item l w ⟨item, found, .searching reports⟩ acks) :
    s.PutRun asker n item l w ⟨item, found, .searching []⟩ acks := by
  induction reports with
  | nil => exact h
  | cons report rest ih =>
    cases report with
    | stalled closest => exact absurd List.mem_cons_self (hno closest)
    | candidate other =>
      exact ih (fun closest hmem => hno closest (List.mem_cons_of_mem _ hmem)) (h.reads rfl)

/-- A put can follow its lookup on every way through a network. -/
theorem WalkRun.puts {target : NodeId} {known : Option Sequence} {alpha : Nat} {seeds : List Peer}
    {w : Walk} (ho : s.Opens asker target seeds n)
    (h : s.WalkRun asker n (.ofSeeds asker.id target known s.k alpha seeds) w) :
    s.PutRun asker n item (.ofSeeds asker.id target known s.k alpha seeds) w
      ⟨item, w.step.lookup, .searching w.step.events⟩ [] := by
  induction h with
  | begins => exact .begins rfl
  | @turns w w' _ ht ih =>
    rw [ht.step_eq.1]
    exact ih.turns ht
  | @arrives w hrun id reply hreply ih =>
    have hguides := hrun.guides ho
    have hno : ∀ closest, .stalled closest ∉ w.step.events := fun closest hmem =>
      hguides.outstanding_ne_zero hreply ((hguides.run.tells.stalled closest).1 hmem).1
    exact (ih.readsAll hno).arrives hreply rfl

/-- A put ends when the last node that was sent the item keeps it and says so. -/
theorem PutRun.ends {n' : LocalNetwork} {l : Lookup} {w : Walk} {p : ItemPut}
    {acks : List (NodeId × Bool)} (h : s.PutRun asker n item l w p acks) {peer : Peer}
    {tried count : Nat} (hphase : p.phase = .storing [peer] tried count)
    (hnew : ∀ e ∈ acks, e.1 ≠ peer.id) {now : Stamp} (hnow : s.Timely now w.network)
    (hput : (Network.inProcess w.network).put now asker peer.addr p.item = (.inProcess n', true)) :
    s.PutEnds asker n item l n' (.ok (p.stats (tried + 1) (count + 1))) :=
  .acknowledges (h.stores hphase List.mem_cons_self hnew hnow hput) List.mem_cons_self
    (ItemPut.acknowledge_last hphase)

end Surroundings

/-! ## 3. What a put has stored -/

/-- Some of the nearest nodes of a crowd has items as described. -/
def StoredNear (kept : ItemStore → Prop) (crowd : List Peer) (target : NodeId) (k : Nat)
    (n : LocalNetwork) : Prop :=
  ∃ v ∈ nearestOf crowd target k, HasAt kept v.addr n

namespace Surroundings

/-- What is true of a put all along its way. -/
structure PutSound (s : Surroundings) (asker : Peer) (n : LocalNetwork) (item : Item) (l : Lookup)
    (kept : ItemStore → Prop) (w : Walk) (p : ItemPut) (acks : List (NodeId × Bool)) : Prop where
  walk : s.WalkRun asker n l w
  item : p.item = item
  searching : ∀ mailbox, p.phase = .searching mailbox → p.lookup = w.step.lookup ∧
    ∀ closest, .stalled closest ∈ mailbox →
      w.step.lookup.outstanding = 0 ∧ closest = w.step.lookup.closest
  storing : ∀ waiting tried count, p.phase = .storing waiting tried count →
    (∀ q ∈ waiting, ∃ v ∈ nearestOf s.crowd l.target s.k, v.contact = q.contact) ∧
      (0 < count → StoredNear kept s.crowd l.target s.k w.network)
  acked : ∀ id, (id, true) ∈ acks → StoredNear kept s.crowd l.target s.k w.network

variable {s : Surroundings} {asker : Peer} {n : LocalNetwork} {item : Item} {l : Lookup}
  {kept : ItemStore → Prop} {w : Walk} {p p' : ItemPut} {acks : List (NodeId × Bool)}

theorem PutSound.turns (h : s.PutSound asker n item l kept w p acks) {w' : Walk}
    (ht : s.Turn asker w w')
    (hstays : StoredNear kept s.crowd l.target s.k w.network →
      StoredNear kept s.crowd l.target s.k w'.network) :
    s.PutSound asker n item l kept w' p acks := by
  constructor
  case walk => exact h.walk.turns ht
  case item => exact h.item
  case searching =>
    rw [ht.step_eq.1]
    exact h.searching
  case storing =>
    intro waiting tried count hphase
    obtain ⟨hnear, hcount⟩ := h.storing waiting tried count hphase
    exact ⟨hnear, fun hpos => hstays (hcount hpos)⟩
  case acked => exact fun id hack => hstays (h.acked id hack)

/-- A reply arrives, and with it maybe the end of the lookup. -/
theorem PutSound.arrives (h : s.PutSound asker n item l kept w p acks) {id : NodeId}
    {reply : Option GetReply} {queries : List Peer} (hreply : (id, reply) ∈ w.underway)
    (hopen : w.step.lookup.outstanding ≠ 0)
    (hstalled : ∀ closest, .stalled closest ∈ (w.arrive id reply).step.events →
      (w.arrive id reply).step.lookup.outstanding = 0 ∧
        closest = (w.arrive id reply).step.lookup.closest)
    (hp : p.answer id reply = .goesOn p' queries) :
    s.PutSound asker n item l kept (w.arrive id reply) p' acks := by
  have hwalk := h.walk.arrives hreply
  rcases ItemPut.answer_goesOn hp with
    ⟨mailbox, hphase, rfl⟩ | ⟨⟨waiting, tried, count, hphase⟩, rfl⟩
  · obtain ⟨hlookup, hearlier⟩ := h.searching mailbox hphase
    refine ⟨hwalk, h.item, fun mailbox' hphase' => ?_, fun _ _ _ hphase' => (nomatch hphase'),
      h.acked⟩
    cases hphase'
    rw [hlookup]
    refine ⟨rfl, fun closest hmem => ?_⟩
    rcases List.mem_append.1 hmem with hmem | hmem
    · exact absurd (hearlier closest hmem).1 hopen
    · exact hstalled closest hmem
  · refine ⟨hwalk, h.item, fun mailbox hphase' => ?_, h.storing, h.acked⟩
    rw [hphase] at hphase'
    cases hphase'

theorem PutSound.reads (h : s.PutSound asker n item l kept w p acks) {queries : List Peer}
    (hp : p.receive = .goesOn p' queries) : s.PutSound asker n item l kept w p' acks := by
  rcases ItemPut.receive_goesOn hp with rfl | ⟨found, rest, hphase, rfl⟩
  · exact h
  · obtain ⟨hlookup, hstalled⟩ := h.searching _ hphase
    refine ⟨h.walk, h.item, fun mailbox hphase' => ?_, fun _ _ _ hphase' => (nomatch hphase'),
      h.acked⟩
    cases hphase'
    exact ⟨hlookup, fun closest hmem => hstalled closest (List.mem_cons_of_mem _ hmem)⟩

/-- The put reads the end of the lookup. -/
theorem PutSound.sends (h : s.PutSound asker n item l kept w p acks) {nodes : List Peer}
    (hp : p.receive = .sends p' nodes)
    (hnear : ∀ q ∈ nodes, ∃ v ∈ nearestOf s.crowd l.target s.k, v.contact = q.contact) :
    s.PutSound asker n item l kept w p' acks := by
  obtain ⟨rest, -, rfl⟩ := ItemPut.receive_sends hp
  refine ⟨h.walk, h.item, fun _ hphase => (nomatch hphase), fun waiting tried count hphase => ?_,
    h.acked⟩
  cases hphase
  exact ⟨hnear, fun hpos => absurd hpos (Nat.lt_irrefl 0)⟩

/-- The nodes that are sent the item are those at the end of the lookup. -/
theorem PutSound.sent (h : s.PutSound asker n item l kept w p acks) {nodes : List Peer}
    (hp : p.receive = .sends p' nodes) :
    w.step.lookup.outstanding = 0 ∧ nodes = w.step.lookup.closest := by
  obtain ⟨rest, hphase, -⟩ := ItemPut.receive_sends hp
  exact (h.searching _ hphase).2 nodes List.mem_cons_self

/-- A node answers that it has kept the item only if it has. -/
theorem PutSound.stores (h : s.PutSound asker n item l kept w p acks) {id : NodeId} {ok : Bool}
    (hstored : ok = true → StoredNear kept s.crowd l.target s.k w.network) :
    s.PutSound asker n item l kept w p ((id, ok) :: acks) := by
  refine ⟨h.walk, h.item, h.searching, h.storing, fun other hack => ?_⟩
  rcases List.mem_cons.1 hack with heq | hack
  · cases heq
    exact hstored rfl
  · exact h.acked other hack

theorem PutSound.acknowledges (h : s.PutSound asker n item l kept w p acks) {id : NodeId}
    {ok : Bool} {queries : List Peer} (hack : (id, ok) ∈ acks)
    (hp : p.acknowledge id ok = .goesOn p' queries) :
    s.PutSound asker n item l kept w p' (acks.filter (·.1 != id)) := by
  have hacked : ∀ other, (other, true) ∈ acks.filter (·.1 != id) →
      StoredNear kept s.crowd l.target s.k w.network :=
    fun other hack' => h.acked other (List.mem_filter.1 hack').1
  rcases ItemPut.acknowledge_goesOn hp with rfl | ⟨waiting, tried, count, hphase, rfl⟩
  · exact ⟨h.walk, h.item, h.searching, h.storing, hacked⟩
  · obtain ⟨hnear, hcount⟩ := h.storing _ _ _ hphase
    refine ⟨h.walk, h.item, fun _ hphase' => (nomatch hphase'),
      fun waiting' tried' count' hphase' => ?_, hacked⟩
    cases hphase'
    refine ⟨fun q hq => hnear q (List.mem_filter.1 hq).1, fun hpos => ?_⟩
    cases ok with
    | true => exact h.acked id hack
    | false => exact hcount hpos

end Surroundings

section

variable {crowd clients : List Peer} {k alpha : Nat} {start : Int} {asker : Peer}
  {target : NodeId} {seeds : List Peer} {n : LocalNetwork} {kept : ItemStore → Prop}

theorem StoredNear.turn (hkept : ItemStore.Endures target start kept)
    (hcrowd : (crowd.map (·.id)).Nodup) {w w' : Walk}
    (ht : (Surroundings.keeping crowd clients k target start).Turn asker w w')
    (h : StoredNear kept crowd target k w.network) : StoredNear kept crowd target k w'.network := by
  obtain ⟨v, hv, hat⟩ := h
  have hmem := ((RoutingTable.mem_nearestOf hcrowd).1 hv).1
  exact ⟨v, hv, hat.turn hkept (List.mem_append_left _ hmem) ht⟩

/-- Stores whose items have owners stay so during a lookup. -/
theorem owned_of_walk {known : Option Sequence} {w : Walk}
    (ho : (Surroundings.keeping crowd clients k target start).Opens asker target seeds n)
    (howned : ∀ v ∈ crowd ++ clients, HasAt (ItemStore.Owned target) v.addr n)
    (h : (Surroundings.keeping crowd clients k target start).WalkRun asker n
      (.ofSeeds asker.id target known k alpha seeds) w) :
    ∀ v ∈ crowd ++ clients, HasAt (ItemStore.Owned target) v.addr w.network := by
  intro v hv
  have hendures := ItemStore.endures_owned target start
  exact (h.keeps (HasAt (ItemStore.Owned target) v.addr) (fun _ => True) ho
    (fun n n' ht hat => hat.traffic hendures hv ht)
    (fun now n u hu _ hnow hat =>
      ⟨hat.deliver hendures hv hnow Surroundings.keeping_sends_get _ u.addr, trivial⟩)
    (howned v hv)).1

variable {item : Item}
  (ho : (Surroundings.keeping crowd clients k item.target start).Opens asker item.target seeds n)
  (howned : ∀ v ∈ crowd ++ clients, HasAt (ItemStore.Owned item.target) v.addr n)
  (howner : item.isMutable = true) (hkept : ItemStore.Endures item.target start kept)
  (hstores : ∀ s s' now, ItemStore.Owned item.target s → start ≤ now.sinceEpoch →
    s.put item now = .ok s' → kept s')

include ho howned howner hkept hstores

theorem Surroundings.PutRun.sound {w : Walk} {p : ItemPut} {acks : List (NodeId × Bool)}
    (h : (Surroundings.keeping crowd clients k item.target start).PutRun asker n item
      (.ofSeeds asker.id item.target none k alpha seeds) w p acks) :
    (Surroundings.keeping crowd clients k item.target start).PutSound asker n item
      (.ofSeeds asker.id item.target none k alpha seeds) kept w p acks := by
  have hcrowd : (crowd.map (·.id)).Nodup := ho.suits.crowd_nodup
  induction h with
  | begins hp =>
    cases hp
    have hwalk : (Surroundings.keeping crowd clients k item.target start).WalkRun asker n
      (.ofSeeds asker.id item.target none k alpha seeds) (.begin n _) := .begins
    refine ⟨hwalk, rfl, fun mailbox hphase => ?_, fun _ _ _ hphase => (nomatch hphase),
      fun _ hack => (nomatch hack)⟩
    cases hphase
    exact ⟨rfl, fun closest hmem => ((hwalk.guides ho).run.tells.stalled closest).1 hmem⟩
  | turns _ ht ih => exact ih.turns ht fun hstored => hstored.turn hkept hcrowd ht
  | arrives _ hreply hp ih =>
    have hafter := (ih.walk.arrives hreply).guides ho
    exact ih.arrives hreply ((ih.walk.guides ho).outstanding_ne_zero hreply)
      (fun closest hmem => (hafter.run.tells.stalled closest).1 hmem) hp
  | reads _ hp ih => exact ih.reads hp
  | @sends w p p' acks nodes now n' _ hp hnow hlearn ih =>
    obtain ⟨hzero, rfl⟩ := ih.sent hp
    have hcontacts := (ih.walk.guides ho).closest_contacts ho hzero
    have hnear : ∀ q ∈ w.step.lookup.closest, ∃ v ∈ nearestOf crowd item.target k,
        v.contact = q.contact := by
      intro q hq
      have hmem : q.contact ∈ w.step.lookup.closest.map Peer.contact := List.mem_map_of_mem hq
      rw [hcontacts] at hmem
      exact List.mem_map.1 hmem
    have hlives : ∀ q ∈ w.step.lookup.closest,
        (Surroundings.keeping crowd clients k item.target start).Lives q.id q.addr := by
      intro q hq
      obtain ⟨v, hv, hvq⟩ := hnear q hq
      have hmem := ((RoutingTable.mem_nearestOf hcrowd).1 hv).1
      exact .inl ⟨v, List.mem_append_left _ hmem, congrArg Prod.fst hvq, congrArg Prod.snd hvq⟩
    cases hlearn
    have hturn : (Surroundings.keeping crowd clients k item.target start).Turn asker w _ :=
      .others (.hears asker.addr hnow hlives)
    exact (ih.sends hp hnear).turns hturn fun hstored => hstored.turn hkept hcrowd hturn
  | @stores w p acks waiting tried count peer now n' ok _ hphase hpeer _ hnow hput ih =>
    rw [ih.item] at hput
    have hnetwork := Network.put_network w.network now asker peer.addr item
    have hok : ((Network.inProcess w.network).put now asker peer.addr item).2 = ok :=
      congrArg Prod.snd hput
    rw [hput] at hnetwork
    cases hnetwork
    have hsends : (Surroundings.keeping crowd clients k item.target start).sends
        (.put asker item 0) := by
      intro sender item' i heq
      cases heq
      exact fun _ => howner
    have hsender : (Surroundings.keeping crowd clients k item.target start).Lives
        (Message.put asker item 0).sender.id asker.addr := ho.suits.housed
    have hturn : (Surroundings.keeping crowd clients k item.target start).Turn asker w _ :=
      .others (.delivers peer.addr hnow hsender hsends)
    refine (ih.turns hturn fun hstored => hstored.turn hkept hcrowd hturn).stores fun hkeeps => ?_
    -- The node has just kept the item.
    subst hkeeps
    obtain ⟨v, hv, hvq⟩ := (ih.storing _ _ _ hphase).1 peer hpeer
    have haddr : v.addr = peer.addr := congrArg Prod.snd hvq
    have hmem := ((RoutingTable.mem_nearestOf hcrowd).1 hv).1
    obtain ⟨node, after, hnode, hafter, hstored⟩ := Network.put_acknowledged hok
    obtain ⟨old, hold, hitems⟩ :=
      owned_of_walk ho howned ih.walk v (List.mem_append_left _ hmem)
    rw [haddr, hnode] at hold
    cases hold
    refine ⟨v, hv, after, ?_, hstores _ _ now hitems hnow.moment.1 hstored⟩
    rw [haddr]
    exact hafter
  | acknowledges _ hack hp ih => exact ih.acknowledges hack hp

/-- When a put succeeds, one of the nodes of the crowd that are nearest to the target has kept the
    item, and the network is as ready as it was. -/
theorem Surroundings.PutEnds.stored {n' : LocalNetwork} {stats : LookupStats}
    (h : (Surroundings.keeping crowd clients k item.target start).PutEnds asker n item
      (.ofSeeds asker.id item.target none k alpha seeds) n' (.ok stats)) :
    StoredNear kept crowd item.target k n' ∧
      (Surroundings.keeping crowd clients k item.target start).Ready n' ∧
        ∀ v ∈ crowd ++ clients, HasAt (ItemStore.Owned item.target) v.addr n' := by
  generalize hresult : Except.ok stats = result at h
  cases h with
  | reads _ hp =>
    obtain ⟨error, rfl⟩ := ItemPut.receive_ends hp
    cases hresult
  | @acknowledges w p acks id ok _ learned hrun hack hp =>
    have hsound := hrun.sound ho howned howner hkept hstores
    refine ⟨?_, (hsound.walk.guides ho).ready, owned_of_walk ho howned hsound.walk⟩
    obtain ⟨waiting, tried, count, hphase, rfl⟩ := ItemPut.acknowledge_ends hp
    have hpos := ItemPut.result_ok hresult.symm
    cases ok with
    | true => exact hsound.acked id hack
    | false => exact (hsound.storing _ _ _ hphase).2 hpos
  | expires hrun =>
    have hsound := hrun.sound ho howned howner hkept hstores
    refine ⟨?_, (hsound.walk.guides ho).ready, owned_of_walk ho howned hsound.walk⟩
    obtain ⟨waiting, tried, count, hphase, hpos⟩ := ItemPut.expire_ok hresult.symm
    exact (hsound.storing _ _ _ hphase).2 hpos

end

end SignedRecords
