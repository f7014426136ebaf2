import SignedRecords.Proofs.Nearest
import SignedRecords.Proofs.Networks

/-!
# Runs of a node

Messages come to a node one after another, from anybody and with any contents. What the node knows
it knows from them alone, and every answer can be traced: the nodes in it are those that its table
has nearest to the target once the sender is recorded, and an item in it was put there, has been
checked, lives at the target, and has not expired.

Main statement: `serves_after`.
-/

namespace SignedRecords

/-! ## 1. Kinds of messages -/

/-- Whether a message is of the kind that another one asks for. -/
def Message.answers : Message → Message → Bool
  | .pong .., .ping .. | .foundNodes .., .findNode .. | .got .., .get ..
  | .stored .., .put .. => true
  | _, _ => false

/-- The target that a request is about, if its answer lists nodes. -/
def Message.target? : Message → Option NodeId
  | .findNode _ target _ | .get _ target _ _ => some target
  | _ => none

/-- The nodes that an answer lists. -/
def Message.listed? : Message → Option (List Peer)
  | .foundNodes _ nodes _ | .got _ _ nodes _ => some nodes
  | _ => none

/-! ## 2. The nearest nodes of a table -/

/-- Nodes are the nearest of a table to a target, as many as there are or as `count` allows. -/
structure RoutingTable.NearestAre (t : RoutingTable) (target : NodeId) (count : Nat)
    (nodes : List Peer) : Prop where
  length : nodes.length = min count t.size
  known : ∀ p ∈ nodes, p ∈ t.nodes
  /-- In strictly increasing distance, so that none is there twice. -/
  ascending : Ascending target nodes
  /-- What is left out is farther than all of them. -/
  nearer : ∀ p ∈ t.nodes, p ∉ nodes → ∀ q ∈ nodes,
    Lookup.distance target q.id < Lookup.distance target p.id

theorem RoutingTable.Consistent.nearestAre {t : RoutingTable} (h : t.Consistent) (target : NodeId)
    (count : Nat) : t.NearestAre target count (t.nearest target count) where
  length := length_nearestOf t.nodes target count
  known _ hp := ((mem_nearestOf h.distinct).1 hp).1
  ascending := ascending_nearestOf h.distinct count
  nearer _ hp hnot := (nearer_of_not_mem_nearestOf h.distinct hp hnot).2

/-- Who is heard from is in the table as heard from now, or not at all. -/
theorem RoutingTable.Consistent.eq_touched {t : RoutingTable} (h : t.Consistent) (node : Peer)
    (now : Stamp) {p : Peer} (hp : p ∈ (t.update node now).1.nodes) (hid : p.id = node.id) :
    p = node.touched now := by
  rcases update_cases h node now with ⟨hsame, hown | ⟨hnew, -⟩⟩ | ⟨-, gone, hr⟩
  · rw [hsame] at hp
    exact absurd (hid.trans hown) (h.ne_localId hp)
  · rw [hsame] at hp
    rw [← hid] at hnew
    exact absurd (List.mem_map_of_mem ((h.same p).1 hp)) hnew
  · rcases (hr.nodes p).1 hp with heq | ⟨-, -, hne⟩
    · exact heq
    · exact absurd hid hne

/-! ## 3. The item of a target -/

/-- The item that a store answers is the one kept for the target, if it is not expired and newer
    than what is known. -/
theorem ItemStore.get_eq_some {s : ItemStore} {target : NodeId} {known : Option Sequence}
    {now : Stamp} {item : Item} : s.get target known now = some item ↔
      ∃ kept, s.lookup target = some kept ∧ kept.isExpired now = false ∧
        (∀ n k, kept.item.seq = some n → known = some k → k < n) ∧ kept.item = item := by
  have hnew : ∀ other, alreadyKnown other known = false ↔
      ∀ n k, other.seq = some n → known = some k → k < n := by
    intro other
    unfold alreadyKnown
    cases other.seq with
    | none => simp
    | some n => cases known <;> simp [Int64.not_le]
  rw [get_eq, Option.filter_eq_some_iff, Option.map_eq_some_iff, Bool.not_eq_true', hnew]
  constructor
  · rintro ⟨⟨kept, hlive, rfl⟩, hn⟩
    obtain ⟨hlookup, hunexpired⟩ := live?_eq_some.1 hlive
    exact ⟨kept, hlookup, hunexpired, hn, rfl⟩
  · rintro ⟨kept, hlookup, hunexpired, hn, rfl⟩
    exact ⟨⟨kept, live?_eq_some.2 ⟨hlookup, hunexpired⟩, rfl⟩, hn⟩

namespace Node

/-! ## 4. Messages in their order -/

/-- A message that came: when, and from which address. -/
structure Arrival where
  now : Stamp
  source : Address
  message : Message

/-- The node after some messages, the latest first. -/
def after (node : Node) : List Arrival → Node
  | [] => node
  | a :: past => ((node.after past).handle a.now a.source a.message).1

/-- An item has been put at a moment, and the answer was that it is kept. -/
def TookAt (node : Node) (past : List Arrival) (item : Item) (moment : Stamp) : Prop :=
  ∃ later before source sender i,
    past = later ++ ⟨moment, source, .put sender item i⟩ :: before ∧
      ((node.after before).handle moment source (.put sender item i)).2 =
        some (.stored node.self true none i)

theorem TookAt.later {node : Node} {past : List Arrival} {item : Item} {moment : Stamp}
    (h : node.TookAt past item moment) (a : Arrival) : node.TookAt (a :: past) item moment := by
  obtain ⟨later, before, source, sender, i, rfl, htook⟩ := h
  exact ⟨a :: later, before, source, sender, i, rfl, htook⟩

theorem handle_put_ok {node : Node} {now : Stamp} {item : Item} {items : ItemStore}
    (h : node.items.put item now = .ok items) (source : Address) (sender : Peer) (i : UInt64) :
    node.handle now source (.put sender item i) =
      ({ node.heard now source (.put sender item i) with items },
        some (.stored node.self true none i)) := by
  have hput : (node.heard now source (.put sender item i)).items.put item now = .ok items := h
  unfold handle
  dsimp only
  rw [hput]
  rfl

theorem handle_put_error {node : Node} {now : Stamp} {item : Item} {e : KeepError}
    (h : node.items.put item now = .error e) (source : Address) (sender : Peer) (i : UInt64) :
    node.handle now source (.put sender item i) =
      (node.heard now source (.put sender item i),
        some (.stored node.self false (some e.message) i)) := by
  have hput : (node.heard now source (.put sender item i)).items.put item now = .error e := h
  unfold handle
  dsimp only
  rw [hput]
  rfl

/-! ## 5. Sound nodes -/

/-- A node after some messages: both views of its table agree, and what it keeps for a target has
    been put there by one of the messages. -/
structure Sound (start : Node) (past : List Arrival) (node : Node) : Prop where
  self : node.self = start.self
  k : node.k = start.k
  ttl : node.items.ttl = start.items.ttl
  table : node.routing.Consistent
  localId : node.routing.localId = node.self.id
  distinct : node.items.Distinct
  kept : ∀ target kept, node.items.lookup target = some kept → kept.item.holdsAt target = true ∧
    ∃ moment, start.TookAt past kept.item moment ∧ kept.expiry = start.items.endOfLife moment

theorem sound_fresh (self : Peer) (bucketSize k nodeTtl itemTtl : Nat) :
    (fresh self bucketSize k nodeTtl itemTtl).Sound []
      (fresh self bucketSize k nodeTtl itemTtl) where
  self := rfl
  k := rfl
  ttl := rfl
  table := RoutingTable.consistent_empty _ _ _
  localId := rfl
  distinct := List.nodup_nil
  kept _ _ hkept := nomatch hkept

/-- What a node keeps after an accepted put is the item, or was kept before. -/
theorem Sound.kept_put {start node : Node} {past : List Arrival} (h : start.Sound past node)
    (hnode : start.after past = node) {now : Stamp} {source : Address} {sender : Peer} {item : Item}
    {i : UInt64} {items : ItemStore} (hput : node.items.put item now = .ok items)
    {target : NodeId} {kept : KeptItem} (hkept : items.lookup target = some kept) :
    kept.item.holdsAt target = true ∧ ∃ moment,
      start.TookAt (⟨now, source, .put sender item i⟩ :: past) kept.item moment ∧
        kept.expiry = start.items.endOfLife moment := by
  rw [ItemStore.lookup_of_put hput] at hkept
  by_cases ht : target = item.target
  · rw [if_pos ht] at hkept
    obtain rfl := Option.some.inj hkept
    have hverify := (ItemStore.put_eq_ok.1 hput).1
    refine ⟨?_, now, ⟨[], past, source, sender, i, rfl, ?_⟩, ?_⟩
    · show (item.target == target && item.verify) = true
      rw [ht, hverify, beq_self_eq_true]
      rfl
    · rw [hnode, handle_put_ok hput, h.self]
    · show node.items.endOfLife now = start.items.endOfLife now
      unfold ItemStore.endOfLife
      rw [h.ttl]
  · rw [if_neg ht] at hkept
    obtain ⟨hholds, moment, htook, hexpiry⟩ := h.kept target kept hkept
    exact ⟨hholds, moment, htook.later _, hexpiry⟩

theorem Sound.handle {start node : Node} {past : List Arrival} (h : start.Sound past node)
    (hnode : start.after past = node) (a : Arrival) :
    start.Sound (a :: past) (node.handle a.now a.source a.message).1 := by
  obtain ⟨now, source, m⟩ := a
  have hsettings := RoutingTable.update_settings h.table { m.sender with addr := source } now
  constructor
  case self => rw [handle_self, h.self]
  case k => rw [handle_k, h.k]
  case table =>
    rw [handle_routing]
    exact h.table.update _ now
  case localId => rw [handle_routing, handle_self, hsettings.1, h.localId]
  case ttl =>
    rcases node.handle_items now source m with hsame | ⟨_, item, _, -, hserve⟩
    · rw [hsame, h.ttl]
    · rw [hserve, ItemStore.serve_ttl, h.ttl]
  case distinct =>
    rcases node.handle_items now source m with hsame | ⟨_, item, _, -, hserve⟩
    · rw [hsame]
      exact h.distinct
    · rw [hserve]
      exact ItemStore.distinct_serve h.distinct now _
  case kept =>
    intro target kept hkept
    rcases node.handle_items now source m with hsame | ⟨sender, item, i, rfl, hserve⟩
    · rw [hsame] at hkept
      obtain ⟨hholds, moment, htook, hexpiry⟩ := h.kept target kept hkept
      exact ⟨hholds, moment, htook.later _, hexpiry⟩
    · cases hput : node.items.put item now with
      | ok items =>
        rw [handle_put_ok hput] at hkept
        exact h.kept_put hnode hput hkept
      | error e =>
        rw [handle_put_error hput] at hkept
        obtain ⟨hholds, moment, htook, hexpiry⟩ := h.kept target kept hkept
        exact ⟨hholds, moment, htook.later _, hexpiry⟩

theorem sound_after (self : Peer) (bucketSize k nodeTtl itemTtl : Nat) (past : List Arrival) :
    (fresh self bucketSize k nodeTtl itemTtl).Sound past
      ((fresh self bucketSize k nodeTtl itemTtl).after past) := by
  induction past with
  | nil => exact sound_fresh self bucketSize k nodeTtl itemTtl
  | cons a past ih => exact ih.handle rfl a

/-! ## 6. Answers -/

/-- How a node that was sent some messages deals with the next one. -/
structure Serves (start : Node) (past : List Arrival) (now : Stamp) (source : Address)
    (m : Message) : Prop where
  /-- Requests are answered, and responses are not. -/
  answered : ((start.after past).handle now source m).2.isSome = true ↔ m.isResponse = false
  /-- The answer is of the kind asked for, from this node and under the number of the request. -/
  matching : ∀ reply, ((start.after past).handle now source m).2 = some reply →
    reply.answers m = true ∧ reply.sender = start.self ∧ reply.id = m.id
  /-- An item in an answer was put before and is not expired, is well formed and lives at the
      target, and is newer than what the request names. -/
  genuine : ∀ sender target known i item self nodes j,
    m = .get sender target known i →
    ((start.after past).handle now source m).2 = some (.got self (some item) nodes j) →
    item.holdsAt target = true ∧
      (∃ moment, start.TookAt past item moment ∧
        now.sinceEpoch < start.items.endOfLife moment) ∧
      ∀ n k, item.seq = some n → known = some k → k < n
  /-- Where an item is kept that is not expired, and is newer than what the request names, it is in
      the answer. -/
  found : ∀ sender target known i kept, m = .get sender target known i →
    (start.after past).items.lookup target = some kept → kept.isExpired now = false →
    (∀ n k, kept.item.seq = some n → known = some k → k < n) →
    ∃ self nodes j, ((start.after past).handle now source m).2 =
      some (.got self (some kept.item) nodes j)
  /-- The sender is recorded under the address that the message came from. -/
  recorded : ((start.after past).handle now source m).1.routing =
    ((start.after past).routing.update { m.sender with addr := source } now).1
  /-- If it is in the table afterwards, then under no other address. -/
  sender : ∀ p ∈ ((start.after past).handle now source m).1.routing.nodes, p.id = m.sender.id →
    p.addr = source ∧ p.lastSeen = now
  /-- The nodes in an answer are the nearest of the table in which the sender is recorded, at most
      as many as the node lists, all distinct and without the node itself. -/
  nodes : ∀ reply nodes, ((start.after past).handle now source m).2 = some reply →
    reply.listed? = some nodes → ∃ target, m.target? = some target ∧
      ((start.after past).handle now source m).1.routing.NearestAre target start.k nodes ∧
      nodes.length ≤ start.k ∧ (nodes.map (·.id)).Nodup ∧ start.self.id ∉ nodes.map (·.id)
  /-- A put that is refused leaves the items alone. -/
  refused : ∀ sender error i,
    ((start.after past).handle now source m).2 = some (.stored sender false error i) →
    ((start.after past).handle now source m).1.items = (start.after past).items
  /-- Nothing but an accepted put changes the items. -/
  items : ((start.after past).handle now source m).1.items = (start.after past).items ∨
    ∃ sender item i, m = .put sender item i ∧
      ((start.after past).handle now source m).2 = some (.stored start.self true none i) ∧
      ((start.after past).handle now source m).1.items.lookup item.target =
        some ⟨item, start.items.endOfLife now⟩

/-- Requests are answered, and responses are not. -/
theorem isSome_reply (node : Node) (now : Stamp) (source : Address) (m : Message) :
    (node.handle now source m).2.isSome = true ↔ m.isResponse = false := by
  cases m with
  | put sender item i =>
    obtain ⟨success, error, hreply, -⟩ := node.handle_put now source sender item i
    rw [hreply]
    exact iff_of_true rfl rfl
  | ping | findNode | get => exact iff_of_true rfl rfl
  | pong | foundNodes | got | stored => exact iff_of_false Bool.noConfusion Bool.noConfusion

/-- An answer is of the kind asked for, and carries the number of the request. -/
theorem reply_matches {node : Node} {now : Stamp} {source : Address} {m reply : Message}
    (h : (node.handle now source m).2 = some reply) :
    reply.answers m = true ∧ reply.sender = node.self ∧ reply.id = m.id := by
  cases m with
  | put sender item i =>
    obtain ⟨success, error, hreply, -⟩ := node.handle_put now source sender item i
    rw [hreply] at h
    obtain rfl := Option.some.inj h
    exact ⟨rfl, rfl, rfl⟩
  | ping | findNode | get =>
    obtain rfl := Option.some.inj h
    exact ⟨rfl, rfl, rfl⟩
  | pong | foundNodes | got | stored => cases h

/-- An answer that lists nodes lists those nearest to the target of the request. -/
theorem listed_eq {node : Node} {now : Stamp} {source : Address} {m reply : Message}
    {nodes : List Peer} (h : (node.handle now source m).2 = some reply)
    (hlisted : reply.listed? = some nodes) : ∃ target, m.target? = some target ∧
      nodes = (node.handle now source m).1.routing.nearest target node.k := by
  cases m with
  | findNode sender target i =>
    obtain rfl := Option.some.inj h
    exact ⟨target, rfl, (Option.some.inj hlisted).symm⟩
  | get sender target known i =>
    obtain rfl := Option.some.inj h
    exact ⟨target, rfl, (Option.some.inj hlisted).symm⟩
  | put sender item i =>
    obtain ⟨success, error, hreply, -⟩ := node.handle_put now source sender item i
    rw [hreply] at h
    obtain rfl := Option.some.inj h
    cases hlisted
  | ping sender i =>
    obtain rfl := Option.some.inj h
    cases hlisted
  | _ => cases h

/-- The item in the answer to a get. -/
theorem got_item_iff {node : Node} {now : Stamp} {source : Address} {sender : Peer}
    {target : NodeId} {known : Option Sequence} {i : UInt64} {item : Item} :
    (∃ self nodes j, (node.handle now source (.get sender target known i)).2 =
      some (.got self (some item) nodes j)) ↔ node.items.get target known now = some item := by
  constructor
  · rintro ⟨self, nodes, j, h⟩
    have hreply := Option.some.inj h
    injection hreply
  · intro h
    refine ⟨node.self, (node.heard now source (.get sender target known i)).closer target, i, ?_⟩
    rw [← h]
    rfl

/-- Only an accepted put changes the items, and it leaves its own item for the target. -/
theorem items_of_handle (node : Node) (now : Stamp) (source : Address) (m : Message) :
    (node.handle now source m).1.items = node.items ∨
      ∃ sender item i, m = .put sender item i ∧
        (node.handle now source m).2 = some (.stored node.self true none i) ∧
        (node.handle now source m).1.items.lookup item.target =
          some ⟨item, node.items.endOfLife now⟩ := by
  cases m with
  | put sender item i =>
    cases hput : node.items.put item now with
    | ok items =>
      rw [handle_put_ok hput]
      refine .inr ⟨sender, item, i, rfl, rfl, ?_⟩
      show items.lookup item.target = _
      rw [ItemStore.lookup_of_put hput, if_pos rfl]
    | error e =>
      rw [handle_put_error hput]
      exact .inl rfl
  | _ => exact .inl rfl

/-- An item that a sound node answers was put, and is what was asked for. -/
theorem Sound.genuine {start node : Node} {past : List Arrival} (h : start.Sound past node)
    {target : NodeId} {known : Option Sequence} {now : Stamp} {item : Item}
    (hitem : node.items.get target known now = some item) :
    item.holdsAt target = true ∧
      (∃ moment, start.TookAt past item moment ∧
        now.sinceEpoch < start.items.endOfLife moment) ∧
      ∀ n k, item.seq = some n → known = some k → k < n := by
  obtain ⟨kept, hlookup, hunexpired, hnew, rfl⟩ := ItemStore.get_eq_some.1 hitem
  obtain ⟨hholds, moment, htook, hexpiry⟩ := h.kept target kept hlookup
  refine ⟨hholds, ⟨moment, htook, ?_⟩, hnew⟩
  rw [← hexpiry]
  exact ItemStore.isExpired_eq_false.1 hunexpired

/-- The nodes that a sound node lists are the nearest of its table. -/
theorem Sound.nearest {start node : Node} {past : List Arrival} (h : start.Sound past node)
    (target : NodeId) :
    node.routing.NearestAre target start.k (node.routing.nearest target node.k) ∧
      (node.routing.nearest target node.k).length ≤ start.k ∧
      ((node.routing.nearest target node.k).map (·.id)).Nodup ∧
      start.self.id ∉ (node.routing.nearest target node.k).map (·.id) := by
  have hnearest := h.table.nearestAre target start.k
  rw [h.k]
  refine ⟨hnearest, ?_, hnearest.ascending.ids_nodup, fun hmem => ?_⟩
  · rw [hnearest.length]
    exact Nat.min_le_left _ _
  · obtain ⟨p, hp, hid⟩ := List.mem_map.1 hmem
    refine h.table.ne_localId (hnearest.known p hp) ?_
    rw [hid, h.localId, h.self]

theorem Sound.serves {start : Node} {past : List Arrival}
    (h : start.Sound past (start.after past)) (now : Stamp) (source : Address) (m : Message) :
    start.Serves past now source m := by
  have hnext := h.handle rfl ⟨now, source, m⟩
  constructor
  case answered => exact isSome_reply _ now source m
  case matching =>
    intro reply hreply
    rw [← h.self]
    exact reply_matches hreply
  case genuine =>
    rintro sender target known i item self nodes j rfl hreply
    exact h.genuine (got_item_iff.1 ⟨self, nodes, j, hreply⟩)
  case found =>
    rintro sender target known i kept rfl hlookup hunexpired hnew
    exact got_item_iff.2 (ItemStore.get_eq_some.2 ⟨kept, hlookup, hunexpired, hnew, rfl⟩)
  case recorded => exact handle_routing _ now source m
  case sender =>
    intro p hp hid
    rw [handle_routing] at hp
    rw [h.table.eq_touched _ now hp hid]
    exact ⟨rfl, rfl⟩
  case nodes =>
    intro reply nodes hreply hlisted
    obtain ⟨target, htarget, rfl⟩ := listed_eq hreply hlisted
    have hnearest := hnext.nearest target
    rw [handle_k] at hnearest
    exact ⟨target, htarget, hnearest⟩
  case refused =>
    intro sender' error' j hreply
    rcases items_of_handle (start.after past) now source m with
      hsame | ⟨_, _, _, -, htook, -⟩
    · exact hsame
    · rw [hreply] at htook
      cases htook
  case items =>
    rcases items_of_handle (start.after past) now source m with
      hsame | ⟨sender, item, i, hput, htook, hkept⟩
    · exact .inl hsame
    · rw [h.self] at htook
      refine .inr ⟨sender, item, i, hput, htook, hkept.trans ?_⟩
      unfold ItemStore.endOfLife
      rw [h.ttl]

/-- Whatever messages have come to a node that knew nothing at first, from whomever and in whatever
    order, and whatever comes next: requests are answered and nothing else is, the items and the
    nodes in an answer are as they should be, and only an accepted put changes the items. -/
theorem serves_after (self : Peer) (bucketSize k nodeTtl itemTtl : Nat) (past : List Arrival)
    (now : Stamp) (source : Address) (m : Message) :
    (fresh self bucketSize k nodeTtl itemTtl).Serves past now source m :=
  (sound_after self bucketSize k nodeTtl itemTtl past).serves now source m

end Node

end SignedRecords
