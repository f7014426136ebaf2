import Mathlib.Logic.Relation
import SignedRecords.Proofs.ItemRuns
import SignedRecords.Proofs.RoutingTables
import SignedRecords.Simulation.Network

/-!
# Nodes in a network

A message that is delivered changes one node, and there only the entry of the sender in the routing
table and, when an item is put, the items. So a network whose tables cover a crowd goes on doing so
whatever its nodes send each other, as long as no entry expires.

Main statements: `LocalNetwork.deliver_cases`, `Surroundings.Ready.deliver` and
`Surroundings.Ready.traffic`.
-/

namespace SignedRecords

/-! ## 1. What a message does to a node -/

namespace Node

@[simp] theorem handle_self (node : Node) (now : Stamp) (source : Address) (m : Message) :
    (node.handle now source m).1.self = node.self := by
  cases m with
  | put sender item i =>
    unfold handle
    dsimp only
    split <;> rfl
  | _ => rfl

@[simp] theorem handle_k (node : Node) (now : Stamp) (source : Address) (m : Message) :
    (node.handle now source m).1.k = node.k := by
  cases m with
  | put sender item i =>
    unfold handle
    dsimp only
    split <;> rfl
  | _ => rfl

/-- Whatever a message is, its sender is recorded. -/
theorem handle_routing (node : Node) (now : Stamp) (source : Address) (m : Message) :
    (node.handle now source m).1.routing =
      (node.routing.update { m.sender with addr := source } now).1 := by
  cases m with
  | put sender item i =>
    unfold handle
    dsimp only
    split <;> rfl
  | _ => rfl

/-- Only a put changes the items. -/
theorem handle_items (node : Node) (now : Stamp) (source : Address) (m : Message) :
    (node.handle now source m).1.items = node.items ∨
      ∃ sender item i, m = .put sender item i ∧
        (node.handle now source m).1.items = (node.items.serve now (.put item)).1 := by
  cases m with
  | put sender item i =>
    refine .inr ⟨sender, item, i, rfl, ?_⟩
    unfold handle ItemStore.serve
    dsimp only [heard]
    cases node.items.put item now <;> rfl
  | _ => exact .inl rfl

/-- A put is acknowledged exactly when the item is kept. -/
theorem handle_put (node : Node) (now : Stamp) (source : Address) (sender : Peer) (item : Item)
    (i : UInt64) : ∃ success error,
      (node.handle now source (.put sender item i)).2 =
        some (.stored node.self success error i) ∧
      (success = true → node.items.put item now =
        .ok (node.handle now source (.put sender item i)).1.items) := by
  unfold handle
  dsimp only
  cases hput : (node.heard now source (.put sender item i)).items.put item now with
  | error e => exact ⟨false, _, rfl, fun h => nomatch h⟩
  | ok items => exact ⟨true, none, rfl, fun _ => hput⟩

end Node

/-! ## 2. What a message does to a network -/

namespace LocalNetwork

/-- A change of one node, which keeps its address, leaves all others as they are. -/
theorem node?_modify {n : LocalNetwork} {addr : Address} {change : Node → Node}
    (h : ∀ node : Node, node.self.addr = addr → (change node).self.addr = addr) (a : Address) :
    (n.modify addr change).node? a = if a = addr then (n.node? a).map change else n.node? a := by
  unfold node? modify
  rw [List.find?_map]
  have hsame : ((fun node : Node => node.self.addr == a) ∘
      fun node : Node => if node.self.addr = addr then change node else node) =
      fun node : Node => node.self.addr == a := by
    funext node
    by_cases hnode : node.self.addr = addr
    · simp [hnode, h node hnode]
    · simp [hnode]
  rw [hsame]
  cases hfind : n.nodes.find? (fun node => node.self.addr == a) with
  | none => simp
  | some node =>
    have haddr : node.self.addr = a := by simpa using List.find?_some hfind
    by_cases ha : a = addr
    · simp [haddr, ha]
    · simp [haddr, ha]

theorem addr_of_node? {n : LocalNetwork} {addr : Address} {node : Node}
    (h : n.node? addr = some node) : node.self.addr = addr := by
  simpa using List.find?_some h

/-- Where no two nodes have one address, each is found at its own. -/
theorem node?_of_mem {n : LocalNetwork} (haddrs : (n.nodes.map (·.self.addr)).Nodup) {node : Node}
    (hnode : node ∈ n.nodes) : n.node? node.self.addr = some node := by
  obtain ⟨before, rest, hsplit⟩ := List.append_of_mem hnode
  rw [hsplit, List.map_append, List.map_cons] at haddrs
  refine List.find?_eq_some_iff_append.2 ⟨beq_self_eq_true _, before, rest, hsplit, ?_⟩
  intro other hother
  rw [Bool.not_eq_true', beq_eq_false_iff_ne]
  exact (List.nodup_append.1 haddrs).2.2 _ (List.mem_map_of_mem hother) _ List.mem_cons_self

/-- A message that reaches a node is handled by it. -/
theorem deliver_of_reached {n : LocalNetwork} (now : Stamp) (source : Address) {addr : Address}
    {m : Message} {node : Node} (honline : n.offline = false) (hrefused : n.isRefused m = false)
    (hnode : n.node? addr = some node) : (n.deliver now source addr m).1 =
      n.modify addr fun _ => (node.handle now source m).1 := by
  unfold deliver
  rw [honline, hrefused, hnode]
  dsimp only
  rw [if_neg Bool.false_ne_true, if_neg Bool.false_ne_true]
  split <;> rename_i hpair <;> rw [hpair]

/-- A message changes nothing, or it reaches the node at its address. -/
theorem deliver_cases (n : LocalNetwork) (now : Stamp) (source addr : Address) (m : Message) :
    (n.deliver now source addr m).1 = n ∨ ∃ node, n.node? addr = some node ∧
      (n.deliver now source addr m).1 = n.modify addr fun _ => (node.handle now source m).1 := by
  cases honline : n.offline with
  | true =>
    left
    unfold deliver
    rw [honline]
    rfl
  | false =>
    cases hrefused : n.isRefused m with
    | true =>
      left
      unfold deliver
      rw [honline, hrefused]
      rfl
    | false =>
      cases hnode : n.node? addr with
      | none =>
        left
        unfold deliver
        rw [honline, hrefused, hnode]
        rfl
      | some node => exact .inr ⟨node, rfl, deliver_of_reached now source honline hrefused hnode⟩

theorem node?_handled {n : LocalNetwork} {addr : Address} {node : Node}
    (hnode : n.node? addr = some node) (now : Stamp) (source : Address) (m : Message)
    (a : Address) : (n.modify addr fun _ => (node.handle now source m).1).node? a =
      if a = addr then some (node.handle now source m).1 else n.node? a := by
  have hkeep : ∀ other : Node, other.self.addr = addr →
      (node.handle now source m).1.self.addr = addr := by
    intro _ _
    rw [Node.handle_self]
    exact addr_of_node? hnode
  rw [node?_modify hkeep]
  by_cases ha : a = addr
  · rw [if_pos ha, if_pos ha, ha, hnode]
    rfl
  · rw [if_neg ha, if_neg ha]

/-- What is at an address after a message was delivered. -/
theorem node?_deliver (n : LocalNetwork) (now : Stamp) (source addr : Address) (m : Message)
    (a : Address) : (n.deliver now source addr m).1.node? a = n.node? a ∨
      ∃ node, a = addr ∧ n.node? a = some node ∧
        (n.deliver now source addr m).1.node? a = some (node.handle now source m).1 := by
  rcases n.deliver_cases now source addr m with hsame | ⟨node, hnode, heq⟩
  · exact .inl (congrArg (·.node? a) hsame)
  · rw [heq, node?_handled hnode]
    by_cases ha : a = addr
    · exact .inr ⟨node, ha, ha ▸ hnode, if_pos ha⟩
    · exact .inl (if_neg ha)

/-- Hearing of others changes the routing table of one node. -/
theorem node?_introduced (n : LocalNetwork) (now : Stamp) (addr : Address) (peers : List Peer)
    (a : Address) : (n.modify addr (introduced now peers)).node? a =
      if a = addr then (n.node? a).map (introduced now peers) else n.node? a := by
  have hkeep : ∀ node : Node, node.self.addr = addr →
      (introduced now peers node).self.addr = addr := fun _ h => h
  exact node?_modify hkeep a

end LocalNetwork

namespace Simulation.Network

theorem get_network (n : LocalNetwork) (now : Stamp) (self : Peer) (addr : Address)
    (target : NodeId) (known : Option Sequence) :
    ((inProcess n).get now self addr target known).1 =
      .inProcess (n.deliver now self.addr addr (.get self target known 0)).1 := by
  unfold get deliver
  dsimp only
  split <;> rename_i heq <;> exact (congrArg Prod.fst heq).symm

/-- A node in reach answers a get with its live item and the nearest nodes of its table, in which
    the asking node has just been recorded. -/
theorem get_reply {n : LocalNetwork} {node : Node} {now : Stamp} {self : Peer} {addr : Address}
    {target : NodeId} {known : Option Sequence} (honline : n.offline = false)
    (hnode : n.node? addr = some node) : ((inProcess n).get now self addr target known).2 =
      some ⟨node.items.get target known now,
        (node.handle now self.addr (.get self target known 0)).1.closer target⟩ := by
  have hdeliver : (n.deliver now self.addr addr (.get self target known 0)).2 =
      .ok (.got node.self (node.items.get target known now)
        ((node.handle now self.addr (.get self target known 0)).1.closer target) 0) := by
    unfold LocalNetwork.deliver
    rw [honline, hnode]
    rfl
  unfold get deliver
  dsimp only
  rw [hdeliver]
  rfl

/-- The same, computed: the nodes of the reply are the first of the table in increasing distance. -/
theorem get_sorted {n : LocalNetwork} {now : Stamp} {self : Peer} {addr : Address}
    {target : NodeId} {known : Option Sequence} {item : Option Item} (sorted : List Peer) (k : Nat)
    (honline : n.offline = false) (hsorted : Ascending target sorted)
    (hnode : ((n.node? addr).map fun node => (node.items.get target known now, node.k,
      sorted.isPerm (node.handle now self.addr (.get self target known 0)).1.routing.nodes)) =
        some (item, k, true)) :
    ((inProcess n).get now self addr target known).2 = some ⟨item, sorted.take k⟩ := by
  obtain ⟨node, hfound, heq⟩ := Option.map_eq_some_iff.1 hnode
  rw [Prod.mk.injEq, Prod.mk.injEq, List.isPerm_iff] at heq
  obtain ⟨rfl, rfl, hperm⟩ := heq
  rw [get_reply honline hfound, RoutingTable.eq_nearestOf_of_ascending hsorted hperm]
  rfl

theorem put_network (n : LocalNetwork) (now : Stamp) (self : Peer) (addr : Address)
    (item : Item) : ((inProcess n).put now self addr item).1 =
      .inProcess (n.deliver now self.addr addr (.put self item 0)).1 := by
  unfold put deliver
  dsimp only
  split <;> rename_i heq <;> exact (congrArg Prod.fst heq).symm

/-- A put that is acknowledged has been kept by the node at the address. -/
theorem put_acknowledged {n : LocalNetwork} {now : Stamp} {self : Peer} {addr : Address}
    {item : Item} (h : ((inProcess n).put now self addr item).2 = true) :
    ∃ (node after : Node), n.node? addr = some node ∧
      (n.deliver now self.addr addr (.put self item 0)).1.node? addr = some after ∧
      node.items.put item now = .ok after.items := by
  unfold put deliver LocalNetwork.deliver at h
  dsimp only at h
  cases hoff : n.offline with
  | true => simp [hoff, Except.toOption] at h
  | false =>
    cases hrefused : n.isRefused (.put self item 0) with
    | true => simp [hoff, hrefused, Except.toOption] at h
    | false =>
      cases hnode : n.node? addr with
      | none => simp [hoff, hrefused, hnode, Except.toOption] at h
      | some node =>
        obtain ⟨success, error, hreply, hkept⟩ := node.handle_put now self.addr self item 0
        have hhandle : node.handle now self.addr (.put self item 0) =
            ((node.handle now self.addr (.put self item 0)).1,
              some (.stored node.self success error 0)) := by
          rw [← hreply]
        have hafter : (n.deliver now self.addr addr (.put self item 0)).1.node? addr =
            some (node.handle now self.addr (.put self item 0)).1 := by
          rw [LocalNetwork.deliver_of_reached now self.addr hoff hrefused hnode,
            LocalNetwork.node?_handled hnode, if_pos rfl]
        refine ⟨node, _, rfl, hafter, hkept ?_⟩
        rw [hoff, hrefused, hnode] at h
        dsimp only at h
        rw [if_neg Bool.false_ne_true, if_neg Bool.false_ne_true, hhandle] at h
        exact h

end Simulation.Network

/-! ## 3. Networks that cover a crowd -/

/-- Nodes that talk to each other, and what is known of the circumstances. -/
structure Surroundings where
  /-- The nodes that count. -/
  crowd : List Peer
  /-- Other nodes that serve as well. -/
  clients : List Peer
  /-- Ids that may be known at any address. -/
  guests : List NodeId
  /-- The size of buckets and replies. -/
  k : Nat
  /-- When something may happen. -/
  moment : Stamp → LocalNetwork → Prop
  /-- What may be sent. -/
  sends : Message → Prop

namespace Surroundings

variable {s : Surroundings}

/-- The nodes that serve. -/
def servers (s : Surroundings) : List Peer := s.crowd ++ s.clients

/-- Who may be known at an address. -/
def Lives (s : Surroundings) (id : NodeId) (addr : Address) : Prop :=
  (∃ v ∈ s.servers, v.id = id ∧ v.addr = addr) ∨ id ∈ s.guests

/-- A node that serves under an id and whose table covers the crowd. -/
structure Attends (s : Surroundings) (id : NodeId) (node : Node) : Prop where
  width : node.k = s.k
  localId : node.routing.localId = id
  bucketSize : node.routing.bucketSize = s.k
  covers : node.routing.Covers s.Lives (s.crowd.map (·.id))

/-- All nodes that serve are in reach and cover the crowd. -/
structure Ready (s : Surroundings) (n : LocalNetwork) : Prop where
  online : n.offline = false
  attends : ∀ v ∈ s.servers, ∃ node, n.node? v.addr = some node ∧ s.Attends v.id node

/-- Whether something may happen at a moment: no entry of a table is expired. -/
structure Timely (s : Surroundings) (now : Stamp) (n : LocalNetwork) : Prop where
  fresh : ∀ v ∈ s.servers, ∀ node, n.node? v.addr = some node → node.routing.Fresh now
  moment : s.moment now n

/-- What nodes do on their own: a message is delivered, or a node hears of others. -/
inductive Traffic (s : Surroundings) : LocalNetwork → LocalNetwork → Prop where
  | delivers {n : LocalNetwork} {now : Stamp} {source : Address} {m : Message} (addr : Address)
      (hnow : s.Timely now n) (hsender : s.Lives m.sender.id source) (hm : s.sends m) :
    Traffic s n (n.deliver now source addr m).1
  | hears {n : LocalNetwork} {now : Stamp} {peers : List Peer} (addr : Address)
      (hnow : s.Timely now n) (hpeers : ∀ p ∈ peers, s.Lives p.id p.addr) :
    Traffic s n (n.modify addr (LocalNetwork.introduced now peers))

theorem Attends.handle {id : NodeId} {node : Node} (h : s.Attends id node) {now : Stamp}
    {source : Address} {m : Message} (hfresh : node.routing.Fresh now)
    (hsender : s.Lives m.sender.id source) : s.Attends id (node.handle now source m).1 := by
  have hsettings := RoutingTable.update_settings h.covers.consistent
    { m.sender with addr := source } now
  constructor
  case width => rw [Node.handle_k, h.width]
  case localId => rw [Node.handle_routing, hsettings.1, h.localId]
  case bucketSize => rw [Node.handle_routing, hsettings.2, h.bucketSize]
  case covers =>
    rw [Node.handle_routing]
    exact h.covers.update hsender hfresh

theorem Attends.introduced {id : NodeId} {node : Node} (h : s.Attends id node) {now : Stamp}
    {peers : List Peer} (hfresh : node.routing.Fresh now)
    (hpeers : ∀ p ∈ peers, s.Lives p.id p.addr) :
    s.Attends id (LocalNetwork.introduced now peers node) := by
  have hsettings := RoutingTable.updateAll_settings h.covers.consistent peers now
  exact ⟨h.width, hsettings.1.trans h.localId, hsettings.2.trans h.bucketSize,
    h.covers.updateAll hpeers hfresh⟩

/-- A message of somebody who may be known keeps a network ready. -/
theorem Ready.deliver {n : LocalNetwork} (h : s.Ready n) {now : Stamp} {source : Address}
    {m : Message} (addr : Address) (hnow : s.Timely now n) (hsender : s.Lives m.sender.id source) :
    s.Ready (n.deliver now source addr m).1 := by
  constructor
  case online =>
    rcases n.deliver_cases now source addr m with heq | ⟨_, _, heq⟩
    · rw [heq]
      exact h.online
    · rw [heq]
      exact h.online
  case attends =>
    intro v hv
    obtain ⟨node, hnode, hattends⟩ := h.attends v hv
    rcases n.node?_deliver now source addr m v.addr with heq | ⟨found, _, hfound, heq⟩
    · exact ⟨node, heq.trans hnode, hattends⟩
    · rw [hnode] at hfound
      cases hfound
      exact ⟨_, heq, hattends.handle (hnow.fresh v hv node hnode) hsender⟩

/-- What can happen at a moment can be followed by something else at the same moment. -/
theorem Timely.deliver {n : LocalNetwork} {now : Stamp} (h : s.Timely now n) (hready : s.Ready n)
    (source addr : Address) (m : Message)
    (hmoment : s.moment now (n.deliver now source addr m).1) :
    s.Timely now (n.deliver now source addr m).1 := by
  refine ⟨fun v hv node hnode => ?_, hmoment⟩
  obtain ⟨old, hold, hattends⟩ := hready.attends v hv
  rcases n.node?_deliver now source addr m v.addr with heq | ⟨found, _, hfound, heq⟩
  · rw [heq] at hnode
    exact h.fresh v hv node hnode
  · rw [heq] at hnode
    rw [hold] at hfound
    cases hfound
    cases hnode
    rw [Node.handle_routing]
    exact (h.fresh v hv old hold).update hattends.covers.consistent _

theorem Ready.introduced {n : LocalNetwork} (h : s.Ready n) {now : Stamp} {peers : List Peer}
    (addr : Address) (hnow : s.Timely now n) (hpeers : ∀ p ∈ peers, s.Lives p.id p.addr) :
    s.Ready (n.modify addr (LocalNetwork.introduced now peers)) := by
  refine ⟨h.online, fun v hv => ?_⟩
  obtain ⟨node, hnode, hattends⟩ := h.attends v hv
  rw [LocalNetwork.node?_introduced, hnode]
  by_cases ha : v.addr = addr
  · rw [if_pos ha]
    exact ⟨_, rfl, hattends.introduced (hnow.fresh v hv node hnode) hpeers⟩
  · rw [if_neg ha]
    exact ⟨node, rfl, hattends⟩

theorem Ready.traffic {n n' : LocalNetwork} (h : s.Ready n) (ht : s.Traffic n n') :
    s.Ready n' := by
  cases ht with
  | delivers addr hnow hsender _ => exact h.deliver addr hnow hsender
  | hears addr hnow hpeers => exact h.introduced addr hnow hpeers

theorem Ready.traffics {n n' : LocalNetwork} (h : s.Ready n)
    (ht : Relation.ReflTransGen s.Traffic n n') : s.Ready n' := by
  induction ht with
  | refl => exact h
  | tail _ ht ih => exact ih.traffic ht

end Surroundings

/-! ## 4. Networks of nodes with room for one -/

/-- A peer at the port of its id. -/
def peerOf (id : NodeId) : Peer := ⟨id, LocalNetwork.addressOf (UInt16.ofNat id.toNat), default⟩

/-- A node that has heard of others, with room for one in its buckets and replies. -/
def nodeOf (id : NodeId) (known : List NodeId) : Node :=
  LocalNetwork.introduced default (known.map peerOf) (.fresh (peerOf id) 1 1 900000 7200000)

/-- A network of such nodes. -/
def networkOf (nodes : List (NodeId × List NodeId)) : LocalNetwork :=
  ⟨.standard, nodes.map fun e => nodeOf e.1 e.2, [], false, 10000⟩

theorem node?_networkOf {nodes : List (NodeId × List NodeId)}
    (haddrs : (nodes.map fun e => (peerOf e.1).addr).Nodup) {e : NodeId × List NodeId}
    (he : e ∈ nodes) : (networkOf nodes).node? (peerOf e.1).addr = some (nodeOf e.1 e.2) := by
  have hself : ((networkOf nodes).nodes.map (·.self.addr)).Nodup := by
    have hmap : (networkOf nodes).nodes.map (·.self.addr) = nodes.map fun e => (peerOf e.1).addr :=
      List.map_map
    exact hmap ▸ haddrs
  exact LocalNetwork.node?_of_mem hself (List.mem_map_of_mem (f := fun e => nodeOf e.1 e.2) he)

/-- Such a network is ready when each node has entered all that it has heard of, and these are
    enough of the crowd. -/
theorem ready_networkOf {s : Surroundings} {nodes : List (NodeId × List NodeId)} (hk : s.k = 1)
    (hservers : s.servers = nodes.map fun e => peerOf e.1)
    (haddrs : (nodes.map fun e => (peerOf e.1).addr).Nodup)
    (h : ∀ e ∈ nodes, (nodeOf e.1 e.2).routing.nodes = e.2.map peerOf ∧
      e.2 ⊆ nodes.map (·.1) ∧
      (nodeOf e.1 e.2).routing.knows (s.crowd.map (·.id)) = true) : s.Ready (networkOf nodes) := by
  refine ⟨rfl, fun v hv => ?_⟩
  rw [hservers] at hv
  obtain ⟨⟨id, known⟩, he, rfl⟩ := List.mem_map.1 hv
  obtain ⟨hnodes, hknown, hknows⟩ := h _ he
  have hempty := RoutingTable.consistent_empty id 1 900000
  have hsettings := RoutingTable.updateAll_settings hempty (known.map peerOf) default
  have hentries : ∀ p ∈ (nodeOf id known).routing.nodes, s.Lives p.id p.addr := by
    intro p hp
    rw [hnodes] at hp
    obtain ⟨other, hother, rfl⟩ := List.mem_map.1 hp
    obtain ⟨e, he, rfl⟩ := List.mem_map.1 (hknown hother)
    exact .inl ⟨peerOf e.1, hservers ▸ List.mem_map_of_mem (f := fun e => peerOf e.1) he, rfl, rfl⟩
  exact ⟨_, node?_networkOf haddrs he, hk.symm, hsettings.1, hsettings.2.trans hk.symm,
    RoutingTable.covers_of_knows (hempty.updateAll _ _) hentries hknows⟩

/-- All entries are from the first moment, and at this moment none of them is expired. -/
theorem timely_networkOf {s : Surroundings} {nodes : List (NodeId × List NodeId)}
    (hservers : s.servers = nodes.map fun e => peerOf e.1)
    (haddrs : (nodes.map fun e => (peerOf e.1).addr).Nodup)
    (h : ∀ e ∈ nodes, (nodeOf e.1 e.2).routing.nodes = e.2.map peerOf)
    (hmoment : s.moment default (networkOf nodes)) : s.Timely default (networkOf nodes) := by
  refine ⟨fun v hv node hnode p hp => ?_, hmoment⟩
  rw [hservers] at hv
  obtain ⟨e, he, rfl⟩ := List.mem_map.1 hv
  rw [node?_networkOf haddrs he] at hnode
  cases hnode
  rw [h e he] at hp
  obtain ⟨other, -, rfl⟩ := List.mem_map.1 hp
  unfold Peer.isExpired Stamp.olderThan
  rw [decide_eq_false_iff_not]
  show ¬ ((default : Stamp).sinceEpoch + _ < (default : Stamp).sinceEpoch)
  omega

end SignedRecords
