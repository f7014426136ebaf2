import SignedRecords.Proofs.RoutingRuns
import SignedRecords.Proofs.Walks

/-!
# Networks that were spawned

Nodes are added to a network in groups. The nodes of a group are entered into all tables, and all
nodes into the tables of the group, in any order. A full bucket refuses whoever comes late, and as
long as no entry expires nobody leaves a bucket. So what a table has heard of is either in its
bucket, or the bucket is full of others that belong there; and each node has heard of all.

Main statements: `Acquainted.update`, `Meshed.spawnListed` and `spawned_know_each_other`.
-/

namespace SignedRecords

/-! ## 1. Tables that have heard of some peers -/

namespace RoutingTable

/-- A table that knows nobody but some peers, and in each bucket all of them that belong there, or
    as many as it can hold. -/
structure Acquainted (t : RoutingTable) (peers : List Peer) : Prop where
  consistent : t.Consistent
  entries : ∀ p ∈ t.nodes, ∃ q ∈ peers, q.contact = p.contact
  buckets : ∀ i, (∀ q ∈ peers, q.id ≠ t.localId → t.bucketIndex q.id = i →
    q.id ∈ (t.bucket i).map (·.id)) ∨ (t.bucket i).length = t.bucketSize

theorem acquainted_empty (localId : NodeId) (bucketSize nodeTtl : Nat) :
    (empty localId bucketSize nodeTtl).Acquainted [] :=
  ⟨consistent_empty _ _ _, fun _ hp => (nomatch hp), fun _ => .inl fun _ hq => nomatch hq⟩

theorem fresh_empty (localId : NodeId) (bucketSize nodeTtl : Nat) (now : Stamp) :
    (empty localId bucketSize nodeTtl).Fresh now := fun _ hp => nomatch hp

theorem Acquainted.of_mem {t : RoutingTable} {peers more : List Peer} (h : t.Acquainted peers)
    (hmore : ∀ q, q ∈ more ↔ q ∈ peers) : t.Acquainted more := by
  refine ⟨h.consistent, fun p hp => ?_, fun i => (h.buckets i).imp_left fun hall q hq => ?_⟩
  · obtain ⟨q, hq, hcontact⟩ := h.entries p hp
    exact ⟨q, (hmore q).2 hq, hcontact⟩
  · exact hall q ((hmore q).1 hq)

theorem Acquainted.entries_cons {t : RoutingTable} {peers : List Peer} (h : t.Acquainted peers)
    (node : Peer) : ∀ p ∈ t.nodes, ∃ q ∈ node :: peers, q.contact = p.contact := by
  intro p hp
  obtain ⟨q, hq, hcontact⟩ := h.entries p hp
  exact ⟨q, List.mem_cons_of_mem _ hq, hcontact⟩

/-- A node is refused where its bucket is full, or where it is the table's own. -/
theorem Acquainted.of_refuses {t : RoutingTable} {peers : List Peer} (h : t.Acquainted peers)
    {node : Peer} {now : Stamp} (hrefuses : t.Refuses node now) :
    t.Acquainted (node :: peers) := by
  refine ⟨h.consistent, h.entries_cons node, fun i => ?_⟩
  by_cases hi : node.id ≠ t.localId ∧ t.bucketIndex node.id = i
  · obtain ⟨hforeign, rfl⟩ := hi
    obtain ⟨-, hfull, -⟩ := hrefuses.resolve_left hforeign
    exact .inr (Nat.le_antisymm (h.consistent.bounded _) hfull)
  · refine (h.buckets i).imp_left fun hall q hq hne hqi => ?_
    rcases List.mem_cons.1 hq with rfl | hq
    · exact absurd ⟨hne, hqi⟩ hi
    · exact hall q hq hne hqi

/-- Where a node is recorded while nobody is expired, it is in its bucket, and nobody has left. -/
theorem Acquainted.of_records {t after : RoutingTable} {peers : List Peer} (h : t.Acquainted peers)
    {node : Peer} {now : Stamp} {gone : NodeId} (hfresh : t.Fresh now)
    (hr : t.Records (node.touched now) now gone after) : after.Acquainted (node :: peers) := by
  have hc := h.consistent
  have hafter := hc.of_records hr
  refine ⟨hafter, fun p hp => ?_, fun i => ?_⟩
  · rcases (hr.nodes p).1 hp with rfl | ⟨hp, -⟩
    · exact ⟨node, List.mem_cons_self, rfl⟩
    · exact h.entries_cons node p hp
  · have hids := hr.subset_ids hc hfresh i
    rw [hr.localId, hr.bucketSize]
    rcases h.buckets i with hall | hfull
    · refine .inl fun q hq hne hqi => ?_
      rw [hr.bucketIndex] at hqi
      rcases List.mem_cons.1 hq with rfl | hq
      · exact List.mem_map.2 ⟨q.touched now, hr.mem_bucket.2 (.inl ⟨hqi.symm, rfl⟩), rfl⟩
      · exact hids (hall q hq hne hqi)
    · -- A full bucket keeps its nodes, and cannot have more.
      have hlong := (List.subperm_of_subset (hc.once i) hids).length_le
      rw [List.length_map, List.length_map] at hlong
      have hbound := hafter.bounded i
      rw [hr.bucketSize] at hbound
      exact .inr (by omega)

/-- Whom a table hears of, it is acquainted with: the node is entered, unless its bucket is full. -/
theorem Acquainted.update {t : RoutingTable} {peers : List Peer} (h : t.Acquainted peers)
    (node : Peer) {now : Stamp} (hfresh : t.Fresh now) :
    (t.update node now).1.Acquainted (node :: peers) := by
  rcases update_cases h.consistent node now with ⟨hsame, hrefuses⟩ | ⟨-, gone, hr⟩
  · rw [hsame]
    exact h.of_refuses hrefuses
  · exact h.of_records hfresh hr

theorem Acquainted.updateAll {t : RoutingTable} {peers more : List Peer} (h : t.Acquainted peers)
    {now : Stamp} (hfresh : t.Fresh now) {nodes : List Peer}
    (hmore : ∀ q, q ∈ more ↔ q ∈ nodes ∨ q ∈ peers) : (t.updateAll nodes now).Acquainted more := by
  unfold RoutingTable.updateAll
  induction nodes generalizing t peers with
  | nil => exact h.of_mem fun q => (hmore q).trans (by simp)
  | cons node rest ih =>
    refine ih (h.update node hfresh) (hfresh.update h.consistent node) fun q => ?_
    rw [hmore, List.mem_cons, List.mem_cons, or_comm (a := q = node), or_assoc]

theorem Acquainted.covers {t : RoutingTable} {peers : List Peer} (h : t.Acquainted peers)
    {lives : NodeId → Address → Prop} (hlives : ∀ q ∈ peers, lives q.id q.addr) :
    t.Covers lives (peers.map (·.id)) := by
  refine ⟨h.consistent, fun p hp => ?_, fun i => (h.buckets i).imp (fun hall id hid => ?_) ?_⟩
  · obtain ⟨q, hq, hcontact⟩ := h.entries p hp
    have hid : q.id = p.id := congrArg Prod.fst hcontact
    have haddr : q.addr = p.addr := congrArg Prod.snd hcontact
    rw [← hid, ← haddr]
    exact hlives q hq
  · obtain ⟨q, hq, rfl⟩ := List.mem_map.1 hid
    exact hall q hq
  · intro hfull
    have hall : ∀ id ∈ (t.bucket i).map (·.id), (peers.map (·.id)).contains id = true := by
      intro id hid
      obtain ⟨p, hp, rfl⟩ := List.mem_map.1 hid
      obtain ⟨q, hq, hcontact⟩ := h.entries p (h.consistent.mem_of_bucket hp)
      exact List.contains_iff_mem.2 (List.mem_map.2 ⟨q, hq, congrArg Prod.fst hcontact⟩)
    rw [List.countP_eq_length.2 hall, List.length_map, hfull]

end RoutingTable

/-! ## 2. Nodes that have heard of some peers -/

/-- A node of a network, before it has heard of anybody. -/
def DhtConfig.node (c : DhtConfig) (self : Peer) : Node :=
  .fresh self c.k c.k c.nodeTtl c.itemTtl

namespace Node

/-- A node with buckets and replies of a size, which has heard of some peers. -/
structure Meets (k : Nat) (peers : List Peer) (node : Node) : Prop where
  width : node.k = k
  localId : node.routing.localId = node.self.id
  bucketSize : node.routing.bucketSize = k
  acquainted : node.routing.Acquainted peers

theorem meets_fresh (c : DhtConfig) (self : Peer) : (c.node self).Meets c.k [] :=
  ⟨rfl, rfl, rfl, RoutingTable.acquainted_empty _ _ _⟩

theorem Meets.introduced {k : Nat} {peers more nodes : List Peer} {node : Node}
    (h : node.Meets k peers) {now : Stamp} (hfresh : node.routing.Fresh now)
    (hmore : ∀ q, q ∈ more ↔ q ∈ nodes ∨ q ∈ peers) :
    (LocalNetwork.introduced now nodes node).Meets k more := by
  have hsettings := RoutingTable.updateAll_settings h.acquainted.consistent nodes now
  exact ⟨h.width, hsettings.1.trans h.localId, hsettings.2.trans h.bucketSize,
    h.acquainted.updateAll hfresh hmore⟩

end Node

namespace LocalNetwork

/-! ## 3. Adding nodes -/

theorem addressOf_inj {a b : UInt16} : addressOf a = addressOf b ↔ a = b := by
  constructor
  · intro h
    cases h
    rfl
  · rintro rfl
    rfl

/-- The nodes of a network have the ports that were given out so far, one each. -/
structure Numbered (n : LocalNetwork) : Prop where
  nextPort : n.nextPort.toNat = 10000 + n.nodes.length
  ports : ∀ node ∈ n.nodes, ∃ port < n.nextPort, node.self.addr = addressOf port
  addrs : (n.nodes.map (·.self.addr)).Nodup

theorem numbered_empty (config : DhtConfig) : (empty config).Numbered :=
  ⟨rfl, fun _ hnode => (nomatch hnode), List.nodup_nil⟩

theorem Numbered.of_selves {n other : LocalNetwork} (h : n.Numbered)
    (hselves : n.nodes.map (·.self) = other.nodes.map (·.self))
    (hnext : n.nextPort = other.nextPort) : other.Numbered := by
  have hlen : n.nodes.length = other.nodes.length := by
    have hmap := congrArg List.length hselves
    rwa [List.length_map, List.length_map] at hmap
  refine ⟨hnext ▸ hlen ▸ h.nextPort, fun node hnode => ?_, ?_⟩
  · have hself : node.self ∈ n.nodes.map (·.self) := hselves ▸ List.mem_map_of_mem hnode
    obtain ⟨old, hold, heq⟩ := List.mem_map.1 hself
    rw [← hnext, ← heq]
    exact h.ports old hold
  · have haddrs := congrArg (List.map Peer.addr) hselves
    rw [List.map_map, List.map_map] at haddrs
    exact haddrs ▸ h.addrs

theorem Numbered.ne_nextPort {n : LocalNetwork} (h : n.Numbered) {node : Node}
    (hnode : node ∈ n.nodes) : node.self.addr ≠ addressOf n.nextPort := by
  obtain ⟨port, hlt, haddr⟩ := h.ports node hnode
  rw [haddr]
  intro heq
  rw [addressOf_inj.1 heq] at hlt
  exact absurd hlt (UInt16.lt_irrefl _)

/-- What becomes of a network when peers join it as nodes that know nobody. -/
structure Joins (n : LocalNetwork) (peers : List Peer) (after : LocalNetwork) : Prop where
  nodes : after.nodes = n.nodes ++ peers.map n.config.node
  config : after.config = n.config
  offline : after.offline = n.offline
  numbered : after.Numbered

/-- A network with a port left takes another node. -/
theorem Numbered.addNode {n : LocalNetwork} (h : n.Numbered) (id : NodeId) (now : Stamp)
    (hroom : n.nodes.length + 1 < 55536) :
    n.Joins [(n.addNode id now).2] (n.addNode id now).1 := by
  have hkept : n.nodes.filter (fun other => other.self.addr != addressOf n.nextPort) = n.nodes :=
    List.filter_eq_self.2 fun node hnode => bne_iff_ne.2 (h.ne_nextPort hnode)
  have hport : (n.nextPort + 1).toNat = n.nextPort.toNat + 1 := by
    have hnext := h.nextPort
    rw [UInt16.toNat_add, UInt16.toNat_one]
    omega
  have hnodes : (n.addNode id now).1.nodes =
      n.nodes ++ [n.config.node ⟨id, addressOf n.nextPort, now⟩] := congrArg (· ++ _) hkept
  refine ⟨hnodes, rfl, rfl, ?_, fun node hnode => ?_, ?_⟩
  · rw [hnodes, List.length_append, List.length_singleton]
    show (n.nextPort + 1).toNat = _
    rw [hport, h.nextPort, Nat.add_assoc]
  · show ∃ port < n.nextPort + 1, _
    rw [hnodes, List.mem_append, List.mem_singleton] at hnode
    rcases hnode with hnode | rfl
    · obtain ⟨port, hlt, haddr⟩ := h.ports node hnode
      refine ⟨port, ?_, haddr⟩
      rw [UInt16.lt_iff_toNat_lt] at hlt ⊢
      omega
    · refine ⟨n.nextPort, ?_, rfl⟩
      rw [UInt16.lt_iff_toNat_lt]
      omega
  · rw [hnodes, List.map_append, List.nodup_append]
    refine ⟨h.addrs, List.nodup_singleton _, fun addr haddr other hother => ?_⟩
    obtain ⟨node, hnode, rfl⟩ := List.mem_map.1 haddr
    obtain rfl := List.mem_singleton.1 hother
    exact h.ne_nextPort hnode

/-- A network with enough ports left takes a group of nodes. -/
theorem Numbered.addNodes {n : LocalNetwork} (h : n.Numbered) (ids : List NodeId) (now : Stamp)
    (hroom : n.nodes.length + ids.length < 55536) :
    n.Joins (n.addNodes now ids).2 (n.addNodes now ids).1 ∧
      (n.addNodes now ids).2.map (·.id) = ids := by
  induction ids generalizing n with
  | nil => exact ⟨⟨(List.append_nil _).symm, rfl, rfl, h⟩, rfl⟩
  | cons id rest ih =>
    rw [List.length_cons] at hroom
    have hone := h.addNode id now (by omega)
    have hlen : (n.addNode id now).1.nodes.length = n.nodes.length + 1 := by
      rw [hone.nodes, List.length_append]
      rfl
    obtain ⟨hrest, hids⟩ := ih hone.numbered (by omega)
    refine ⟨⟨hrest.nodes.trans ?_, hrest.config.trans hone.config,
      hrest.offline.trans hone.offline, hrest.numbered⟩, congrArg (id :: ·) hids⟩
    rw [hone.nodes, hone.config, List.append_assoc]
    rfl

/-- A node of a group, when it has heard of the group and then of all. -/
def greeted (listing : Listing) (now : Stamp) (group all : List Peer) (node : Node) : Node :=
  introduced now (listing.order node.self all) (introduced now group node)

/-- Spawning enters the group into the tables of the others, and all into those of the group. -/
theorem Numbered.nodes_spawnListed {n : LocalNetwork} (h : n.Numbered) (listing : Listing)
    (ids : List NodeId) (now : Stamp) (hroom : n.nodes.length + ids.length < 55536) :
    (n.spawnListed listing ids now).1.nodes =
      n.nodes.map (introduced now (n.addNodes now ids).2) ++
        ((n.addNodes now ids).2.map n.config.node).map (greeted listing now (n.addNodes now ids).2
          (n.nodes.map (·.self) ++ (n.addNodes now ids).2)) := by
  have hjoins := (h.addNodes ids now hroom).1
  have haddrs := hjoins.numbered.addrs
  unfold spawnListed
  dsimp only
  rw [hjoins.nodes, List.map_append, List.nodup_append] at haddrs
  generalize (n.addNodes now ids).2 = group at hjoins haddrs ⊢
  have hall : (((n.addNodes now ids).1.nodes.map (introduced now group)).map (·.self)) =
      n.nodes.map (·.self) ++ group := by
    rw [hjoins.nodes, List.map_map, List.map_append, List.map_map]
    exact congrArg (_ ++ ·) (List.map_id group)
  rw [hall, hjoins.nodes, List.map_append, List.map_append, List.map_map, List.map_map]
  congr 1
  · -- The others have addresses of their own.
    refine List.map_congr_left fun node hnode => if_neg fun hany => ?_
    obtain ⟨p, hp, haddr⟩ := List.any_eq_true.1 hany
    refine haddrs.2.2 _ (List.mem_map_of_mem hnode) p.addr ?_ (beq_iff_eq.1 haddr).symm
    exact List.mem_map.2 ⟨n.config.node p, List.mem_map_of_mem hp, rfl⟩
  · refine List.map_congr_left fun node hnode => if_pos ?_
    obtain ⟨p, hp, rfl⟩ := List.mem_map.1 hnode
    exact List.any_eq_true.2 ⟨p, hp, beq_self_eq_true _⟩

/-- The nodes show themselves as they were added, and the network stays numbered. -/
theorem Numbered.spawnListed {n : LocalNetwork} (h : n.Numbered) (listing : Listing)
    (ids : List NodeId) (now : Stamp) (hroom : n.nodes.length + ids.length < 55536) :
    (n.spawnListed listing ids now).1.nodes.map (·.self) =
      n.nodes.map (·.self) ++ (n.addNodes now ids).2 ∧
        (n.spawnListed listing ids now).1.Numbered := by
  obtain ⟨hjoins, -⟩ := h.addNodes ids now hroom
  have hselves : (n.spawnListed listing ids now).1.nodes.map (·.self) =
      n.nodes.map (·.self) ++ (n.addNodes now ids).2 := by
    rw [h.nodes_spawnListed listing ids now hroom, List.map_append, List.map_map, List.map_map,
      List.map_map]
    exact congrArg (_ ++ ·) (List.map_id _)
  have hbefore : (n.addNodes now ids).1.nodes.map (·.self) =
      (n.spawnListed listing ids now).1.nodes.map (·.self) := by
    rw [hselves, hjoins.nodes, List.map_append, List.map_map]
    exact congrArg (_ ++ ·) (List.map_id _)
  exact ⟨hselves, hjoins.numbered.of_selves hbefore rfl⟩

/-! ## 4. Networks in which each node has heard of all -/

/-- A network with nodes of these ids, each of which has heard of all. -/
structure Meshed (config : DhtConfig) (ids : List NodeId) (n : LocalNetwork) : Prop where
  settings : n.config = config
  online : n.offline = false
  numbered : n.Numbered
  named : n.nodes.map (·.self.id) = ids
  meets : ∀ node ∈ n.nodes, node.Meets config.k (n.nodes.map (·.self))

/-- No node has an entry that is expired. -/
def Unexpired (n : LocalNetwork) (now : Stamp) : Prop := ∀ node ∈ n.nodes, node.routing.Fresh now

theorem Meshed.length_nodes {config : DhtConfig} {ids : List NodeId} {n : LocalNetwork}
    (h : n.Meshed config ids) : n.nodes.length = ids.length := by
  rw [← h.named, List.length_map]

theorem meshed_empty (config : DhtConfig) : (empty config).Meshed config [] :=
  ⟨rfl, rfl, numbered_empty config, rfl, fun _ hnode => nomatch hnode⟩

/-- A node of a group has heard of all when it was greeted. -/
theorem meets_greeted (config : DhtConfig) (listing : Listing) (now : Stamp)
    (old group : List Peer) (p : Peer) :
    (greeted listing now group (old ++ group) (config.node p)).Meets config.k (old ++ group) := by
  have hfresh : (config.node p).routing.Fresh now := RoutingTable.fresh_empty _ _ _ _
  have hgroup : (introduced now group (config.node p)).Meets config.k group :=
    (Node.meets_fresh config p).introduced hfresh fun q => by simp
  have hnext : (introduced now group (config.node p)).routing.Fresh now :=
    hfresh.updateAll (RoutingTable.consistent_empty _ _ _) group
  refine hgroup.introduced hnext fun q => ?_
  rw [(listing.perm _ _).mem_iff, List.mem_append, or_assoc, or_self]

/-- A group that is spawned while nothing is expired leaves a network in which each node has heard
    of all. -/
theorem Meshed.spawnListed {config : DhtConfig} {ids : List NodeId} {n : LocalNetwork}
    (h : n.Meshed config ids) (listing : Listing) (more : List NodeId) {now : Stamp}
    (hnow : n.Unexpired now) (hroom : (ids ++ more).length < 55536) :
    (n.spawnListed listing more now).1.Meshed config (ids ++ more) := by
  rw [List.length_append, ← h.length_nodes] at hroom
  obtain ⟨hjoins, hmore⟩ := h.numbered.addNodes more now hroom
  obtain ⟨hselves, hnumbered⟩ := h.numbered.spawnListed listing more now hroom
  have hnodes := h.numbered.nodes_spawnListed listing more now hroom
  refine ⟨hjoins.config.trans h.settings, hjoins.offline.trans h.online, hnumbered, ?_, ?_⟩
  · have hids := congrArg (List.map Peer.id) hselves
    rw [List.map_map, List.map_append, List.map_map, hmore] at hids
    exact hids.trans (congrArg (· ++ more) h.named)
  · rw [hselves, hnodes]
    generalize (n.addNodes now more).2 = group
    intro node hnode
    rcases List.mem_append.1 hnode with hnode | hnode
    · obtain ⟨old, hold, rfl⟩ := List.mem_map.1 hnode
      exact (h.meets old hold).introduced (hnow old hold) fun q => by
        rw [List.mem_append, or_comm]
    · rw [List.map_map] at hnode
      obtain ⟨p, -, rfl⟩ := List.mem_map.1 hnode
      rw [h.settings]
      exact meets_greeted config listing now _ group p

/-- A client joins as a node that has heard of all others, which stay as they are. -/
theorem Numbered.nodes_addClientListed {n : LocalNetwork} (h : n.Numbered) (listing : Listing)
    (id : NodeId) (now : Stamp) (hroom : n.nodes.length + 1 < 55536) :
    (n.addClientListed listing id now).1.nodes = n.nodes ++
      [introduced now (listing.order (n.addNode id now).2 (n.nodes.map (·.self)))
        (n.config.node (n.addNode id now).2)] := by
  have hjoins := h.addNode id now hroom
  have hnew : ∀ node ∈ n.nodes, node.self.addr ≠ (n.addNode id now).2.addr :=
    fun node hnode => h.ne_nextPort hnode
  unfold addClientListed modify
  dsimp only
  generalize (n.addNode id now).2 = self at hjoins hnew ⊢
  rw [hjoins.nodes, List.map_append]
  congr 1
  · exact (List.map_congr_left fun node hnode => if_neg (hnew node hnode)).trans (List.map_id _)
  · exact congrArg (fun node => [node]) (if_pos rfl)

theorem Meshed.addClientListed {config : DhtConfig} {ids : List NodeId} {n : LocalNetwork}
    (h : n.Meshed config ids) (listing : Listing) (id : NodeId) (now : Stamp)
    (hroom : ids.length + 1 < 55536) : ∃ client : Node,
      (n.addClientListed listing id now).1.nodes = n.nodes ++ [client] ∧
      client.self = (n.addClientListed listing id now).2 ∧ client.self.id = id ∧
      client.Meets config.k (n.nodes.map (·.self)) ∧
      (n.addClientListed listing id now).1.Numbered ∧
      (n.addClientListed listing id now).1.offline = false := by
  rw [← h.length_nodes] at hroom
  have hjoins := h.numbered.addNode id now hroom
  have hnodes := h.numbered.nodes_addClientListed listing id now hroom
  have hfresh : (n.config.node (n.addNode id now).2).routing.Fresh now :=
    RoutingTable.fresh_empty _ _ _ _
  refine ⟨_, hnodes, rfl, rfl, ?_, hjoins.numbered.of_selves ?_ rfl,
    hjoins.offline.trans h.online⟩
  · rw [← h.settings]
    refine (Node.meets_fresh n.config _).introduced hfresh fun q => ?_
    rw [(listing.perm _ _).mem_iff]
    simp
  · rw [hnodes, hjoins.nodes, List.map_append, List.map_append]
    rfl

/-! ## 5. What the nodes know in the end -/

/-- A node whose table has only others of some peers, each at the address where the network reaches
    it, and of each range all of the peers that belong there or as many as a bucket holds. -/
structure KnowsOthers (n : LocalNetwork) (peers : List Peer) (k : Nat) (node : Node) : Prop where
  entries : ∀ p ∈ node.routing.nodes, p.id ≠ node.self.id ∧ ∃ other ∈ peers,
    other.contact = p.contact ∧ ∃ reached, n.node? p.addr = some reached ∧ reached.self = other
  /-- The entries are those of the buckets. -/
  same : node.routing.nodes.Perm node.routing.buckets.flatten
  once : (node.routing.nodes.map (·.id)).Nodup
  /-- The number of a bucket is the number of leading bits that its nodes share with the node. -/
  placed : ∀ i, ∀ p ∈ node.routing.bucket i, node.self.id.PartAt p.id i
  buckets : ∀ i, (∀ other ∈ peers, node.self.id.PartAt other.id i →
    ∃ p ∈ node.routing.bucket i, p.contact = other.contact) ∨ (node.routing.bucket i).length = k

section

variable {n : LocalNetwork} {nodes : List Node} {k : Nat}
  (hreach : ∀ node ∈ nodes, n.node? node.self.addr = some node)

include hreach

theorem knowsOthers_of_meets (hids : (nodes.map (·.self.id)).Nodup) {node : Node}
    (h : node.Meets k (nodes.map (·.self))) : n.KnowsOthers (nodes.map (·.self)) k node := by
  have hc := h.acquainted.consistent
  have hpeers : ((nodes.map (·.self)).map (·.id)).Nodup := by
    rw [List.map_map]
    exact hids
  constructor
  case entries =>
    intro p hp
    obtain ⟨other, hother, hcontact⟩ := h.acquainted.entries p hp
    obtain ⟨reached, hreached, rfl⟩ := List.mem_map.1 hother
    have haddr : reached.self.addr = p.addr := congrArg Prod.snd hcontact
    rw [← h.localId, ← haddr]
    exact ⟨hc.ne_localId hp, _, hother, hcontact, reached, hreach reached hreached, rfl⟩
  case same => exact hc.perm_buckets
  case once => exact hc.distinct
  case placed =>
    intro i p hp
    rw [← h.localId]
    exact hc.partAt hp
  case buckets =>
    intro i
    rw [← h.localId, ← h.bucketSize]
    refine (h.acquainted.buckets i).imp_left fun hall other hother hpart => ?_
    have hne : other.id ≠ node.routing.localId := fun e => hpart.differ (e ▸ rfl)
    have hindex := (RoutingTable.bucketIndex_of_ne hne).trans hpart.sharedBits_eq
    obtain ⟨p, hp, hid⟩ := List.mem_map.1 (hall other hother hne hindex)
    obtain ⟨q, hq, hcontact⟩ := h.acquainted.entries p (hc.mem_of_bucket hp)
    -- The entry is that of one of the peers, and no other peer has its id.
    have hsame : q.id = other.id := (congrArg Prod.fst hcontact).trans hid
    rw [List.inj_on_of_nodup_map hpeers hq hother hsame] at hcontact
    exact ⟨p, hp, hcontact.symm⟩

/-- Nodes that have heard of all others are what lookups rely on. -/
theorem ready_of_meets (honline : n.offline = false) (asker : Peer)
    (hmeets : ∀ node ∈ nodes, node.Meets k (nodes.map (·.self))) :
    (Surroundings.around (nodes.map (·.self)) asker k).Ready n := by
  refine ⟨honline, fun v hv => ?_⟩
  rw [Surroundings.servers_around] at hv
  obtain ⟨node, hnode, rfl⟩ := List.mem_map.1 hv
  have h := hmeets node hnode
  refine ⟨node, hreach node hnode, h.width, h.localId, h.bucketSize, h.acquainted.covers ?_⟩
  intro q hq
  refine .inl ⟨q, ?_, rfl, rfl⟩
  rw [Surroundings.servers_around]
  exact hq

end

/-- Networks that come about by spawning groups of nodes, in whatever order the nodes are listed,
    while no entry is expired; with the ids of all nodes. -/
inductive SpawnRun (config : DhtConfig) : List NodeId → LocalNetwork → Prop where
  | begins : SpawnRun config [] (empty config)
  | spawns {ids : List NodeId} {n : LocalNetwork} (h : SpawnRun config ids n) (listing : Listing)
      (more : List NodeId) {now : Stamp} (hnow : n.Unexpired now) :
    SpawnRun config (ids ++ more) (n.spawnListed listing more now).1

theorem SpawnRun.meshed {config : DhtConfig} {ids : List NodeId} {n : LocalNetwork}
    (h : SpawnRun config ids n) (hroom : ids.length < 55536) : n.Meshed config ids := by
  induction h with
  | begins => exact meshed_empty config
  | spawns _ listing more hnow ih =>
    have hless := hroom
    rw [List.length_append] at hless
    exact (ih (by omega)).spawnListed listing more hnow hroom

/-- In a network of nodes with different ids that were spawned in groups, in whatever order they
    were listed and with any size of the buckets, the table of each node has only others of them, at
    the addresses where they are reached, and each of its buckets has all others of its range or as
    many as it can hold. The same holds of the table of a client that joins then. So lookups
    have what they rely on, before and after. -/
theorem spawned_know_each_other (config : DhtConfig) (ids : List NodeId) (n : LocalNetwork)
    (hids : ids.Nodup) (hfew : ids.length < 55000) (hrun : SpawnRun config ids n) :
    n.nodes.map (·.self.id) = ids ∧ (n.nodes.map (·.self.addr)).Nodup ∧
      (∀ node ∈ n.nodes, n.KnowsOthers (n.nodes.map (·.self)) config.k node) ∧
      (∀ asker, (Surroundings.around (n.nodes.map (·.self)) asker config.k).Ready n) ∧
      ∀ (listing : Listing) (id : NodeId) (now : Stamp), ∃ client : Node,
        (n.addClientListed listing id now).1.nodes = n.nodes ++ [client] ∧
        client.self = (n.addClientListed listing id now).2 ∧ client.self.id = id ∧
        (n.addClientListed listing id now).1.KnowsOthers (n.nodes.map (·.self)) config.k client ∧
        (Surroundings.around (n.nodes.map (·.self)) client.self config.k).Ready
          (n.addClientListed listing id now).1 := by
  have hmeshed := hrun.meshed (by omega)
  have hdistinct : (n.nodes.map (·.self.id)).Nodup := hmeshed.named ▸ hids
  have hreach : ∀ node ∈ n.nodes, n.node? node.self.addr = some node :=
    fun node hnode => node?_of_mem hmeshed.numbered.addrs hnode
  refine ⟨hmeshed.named, hmeshed.numbered.addrs,
    fun node hnode => knowsOthers_of_meets hreach hdistinct (hmeshed.meets node hnode),
    fun asker => ready_of_meets hreach hmeshed.online asker hmeshed.meets,
    fun listing id now => ?_⟩
  obtain ⟨client, hnodes, hself, hid, hmeets, hnumbered, honline⟩ :=
    hmeshed.addClientListed listing id now (by omega)
  have hstill : ∀ node ∈ n.nodes,
      (n.addClientListed listing id now).1.node? node.self.addr = some node := by
    intro node hnode
    refine node?_of_mem hnumbered.addrs ?_
    rw [hnodes]
    exact List.mem_append_left _ hnode
  exact ⟨client, hnodes, hself, hid, knowsOthers_of_meets hstill hdistinct hmeets,
    ready_of_meets hstill honline client.self hmeshed.meets⟩

/-- Two groups of two nodes with room for one in their buckets; those of the second group hear of
    all in reverse. -/
def twoGroups : LocalNetwork :=
  let reversed : Listing := ⟨fun _ others => others.reverse, fun _ => List.reverse_perm⟩
  let first := ((empty { DhtConfig.standard with k := 1 }).spawnListed .asAdded [1, 4]
    (.ofClock 0 0)).1
  (first.spawnListed reversed [5, 6] (.ofClock 0 900)).1

/-- The last node has no room for the second one, and the first one only for the second. -/
theorem spawned_know_each_other_of_two_groups :
    SpawnRun { DhtConfig.standard with k := 1 } [1, 4, 5, 6] twoGroups ∧
      ([1, 4, 5, 6] : List NodeId).Nodup ∧ ([1, 4, 5, 6] : List NodeId).length < 55000 ∧
      (twoGroups.nodes.map fun node => node.routing.nodes.map (·.id)) =
        [[4], [1, 5, 6], [6, 4, 1], [5, 1]] ∧
      (∀ node ∈ twoGroups.nodes, twoGroups.KnowsOthers (twoGroups.nodes.map (·.self)) 1 node) ∧
      ∃ client : Node, (twoGroups.addClientListed .asAdded 0 (.ofClock 1 0)).1.nodes =
          twoGroups.nodes ++ [client] ∧ client.self.id = 0 ∧
        (twoGroups.addClientListed .asAdded 0 (.ofClock 1 0)).1.KnowsOthers
          (twoGroups.nodes.map (·.self)) 1 client ∧
        (Surroundings.around (twoGroups.nodes.map (·.self)) client.self 1).Ready
          (twoGroups.addClientListed .asAdded 0 (.ofClock 1 0)).1 := by
  have hstart : (empty { DhtConfig.standard with k := 1 }).Unexpired (.ofClock 0 0) :=
    fun node hnode => nomatch hnode
  have hnow : ((empty { DhtConfig.standard with k := 1 }).spawnListed .asAdded [1, 4]
      (.ofClock 0 0)).1.Unexpired (.ofClock 0 900) := by
    unfold Unexpired RoutingTable.Fresh
    decide +kernel
  have hrun : SpawnRun { DhtConfig.standard with k := 1 } [1, 4, 5, 6] twoGroups :=
    (SpawnRun.begins.spawns .asAdded [1, 4] hstart).spawns _ [5, 6] hnow
  have hids : ([1, 4, 5, 6] : List NodeId).Nodup := by decide
  have hfew : ([1, 4, 5, 6] : List NodeId).length < 55000 := by decide
  obtain ⟨-, -, hknow, -, hclient⟩ := spawned_know_each_other _ _ _ hids hfew hrun
  obtain ⟨client, hnodes, -, hid, hothers, hready⟩ := hclient .asAdded 0 (.ofClock 1 0)
  exact ⟨hrun, hids, hfew, by decide +kernel, hknow, client, hnodes, hid, hothers, hready⟩

end LocalNetwork

end SignedRecords
