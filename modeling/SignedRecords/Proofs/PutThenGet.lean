import SignedRecords.Proofs.Authenticity
import SignedRecords.Proofs.GetRuns
import SignedRecords.Proofs.PutRuns

/-!
# What was put can be got

A put and a search for the same target walk through the network on their own ways and at different
times, from other nodes and in another order. Both come to the same nodes, the nearest of the crowd.
So a record that was put, or a newer one of its key, is found.

Main statement: `get_after_put`.
-/

namespace SignedRecords

open Lookup (distance)
open RoutingTable (nearestOf)
open Simulation (Network)

variable {crowd clients : List Peer} {k : Nat} {target : NodeId} {start : Int}

/-! ## 1. Clients -/

namespace Surroundings

/-- The lookups of a client that is far from the target rely on no more than this. -/
theorem suits_keeping (hk : 1 ≤ k) (hids : ((crowd ++ clients).map (·.id)).Nodup)
    (hlarge : k ≤ crowd.length)
    (hfar : ∀ c ∈ clients, ∀ v ∈ nearestOf crowd target k,
      distance target v.id ≤ distance target c.id)
    {asker : Peer} (hasker : asker ∈ clients) :
    (keeping crowd clients k target start).Suits asker target := by
  have hcrowd : (crowd.map (·.id)).Nodup :=
    hids.sublist ((List.sublist_append_left crowd clients).map _)
  have hforeign : ∀ c ∈ clients, c.id ∉ crowd.map (·.id) := by
    intro c hc hmem
    rw [List.map_append] at hids
    exact (List.nodup_append.1 hids).2.2 _ hmem _ (List.mem_map_of_mem hc) rfl
  constructor
  case wide => exact hk
  case distinct => exact hids
  case foreign => exact hforeign asker hasker
  case housed => exact .inl ⟨asker, List.mem_append_right _ hasker, rfl, rfl⟩
  case guests => exact fun id hid => nomatch hid
  case harmless =>
    rintro id addr (⟨v, hv, rfl, -⟩ | hguest)
    · rcases List.mem_append.1 hv with hv | hv
      · exact .inl (List.mem_map_of_mem hv)
      · exact .inr (.inl (le_rank_of_not_nearer hcrowd hlarge (hforeign v hv) (hfar v hv)))
    · cases hguest

/-- Two clients that are farther from the target than the nearest nodes. -/
theorem suits_keeping_pair {a b : Peer} (hk : 1 ≤ k)
    (hids : ((crowd ++ [a, b]).map (·.id)).Nodup) (hlarge : k ≤ crowd.length)
    (hfar : ∀ v ∈ nearestOf crowd target k,
      distance target v.id < distance target a.id ∧ distance target v.id < distance target b.id)
    {asker : Peer} (hasker : asker ∈ [a, b]) :
    (keeping crowd [a, b] k target start).Suits asker target := by
  refine suits_keeping hk hids hlarge (fun c hc v hv => ?_) hasker
  obtain ⟨hva, hvb⟩ := hfar v hv
  rcases List.mem_cons.1 hc with rfl | hc
  · exact Nat.le_of_lt hva
  · obtain rfl := List.mem_singleton.1 hc
    exact Nat.le_of_lt hvb

/-- The table of a client is that of its node. -/
theorem Ready.routing {s : Surroundings} {n : LocalNetwork} (h : s.Ready n) {asker : Peer}
    (hasker : asker ∈ s.servers) : ∃ node, n.node? asker.addr = some node ∧
      s.Attends asker.id node ∧ (Network.inProcess n).routing asker = node.routing := by
  obtain ⟨node, hnode, hattends⟩ := h.attends asker hasker
  refine ⟨node, hnode, hattends, ?_⟩
  unfold Network.routing
  dsimp only
  rw [hnode]

/-- The nodes that a client begins with are known to it. -/
theorem Ready.seeds {s : Surroundings} {n : LocalNetwork} (h : s.Ready n) {asker : Peer}
    (hasker : asker ∈ s.servers) (config : DhtConfig) (target : NodeId) :
    ∀ p ∈ config.seeds ((Network.inProcess n).routing asker) target,
      s.Lives p.id p.addr ∧ p.id ≠ asker.id ∧ 1 ≤ s.k := by
  obtain ⟨node, hnode, hattends, hrouting⟩ := h.routing hasker
  have hcons := hattends.covers.consistent
  rw [hrouting]
  intro p hp
  have hmem := ((RoutingTable.mem_nearestOf hcons.distinct).1 hp).1
  refine ⟨hattends.covers.entries p hmem, ?_, ?_⟩
  · rw [← hattends.localId]
    exact hcons.ne_localId hmem
  · have hlong := List.length_pos_of_mem ((hcons.same p).1 hmem)
    rw [← hattends.bucketSize]
    exact Nat.le_trans hlong (hcons.bounded _)

/-- A client that covers a crowd knows nodes to begin with. -/
theorem Ready.seeds_ne_nil {s : Surroundings} {n : LocalNetwork} (h : s.Ready n) {asker : Peer}
    (hasker : asker ∈ s.servers) (config : DhtConfig) (target : NodeId) (hk : 1 ≤ s.k)
    (hwide : 1 ≤ config.k) {v : Peer} (hv : v ∈ s.crowd) (hne : v.id ≠ asker.id) :
    config.seeds ((Network.inProcess n).routing asker) target ≠ [] := by
  obtain ⟨node, hnode, hattends, hrouting⟩ := h.routing hasker
  have hcons := hattends.covers.consistent
  have hsome : ∃ id, id ∈ (node.routing.bucket (node.routing.bucketIndex v.id)).map (·.id) := by
    rcases hattends.covers.buckets (node.routing.bucketIndex v.id) with hall | hfull
    · exact ⟨v.id, hall v.id (List.mem_map_of_mem hv) (by rwa [hattends.localId]) rfl⟩
    · have hpos := Nat.lt_of_lt_of_le (hattends.bucketSize ▸ hk) hfull
      obtain ⟨id, hid, -⟩ := List.countP_pos_iff.1 hpos
      exact ⟨id, hid⟩
  obtain ⟨id, hid⟩ := hsome
  obtain ⟨p, hp, -⟩ := List.mem_map.1 hid
  rw [hrouting]
  intro hnone
  have hlen := RoutingTable.length_nearestOf node.routing.nodes target (max config.k config.alpha)
  have hempty : nearestOf node.routing.nodes target (max config.k config.alpha) = [] := hnone
  have hpos := List.length_pos_of_mem (hcons.mem_of_bucket hp)
  rw [hempty, List.length_nil] at hlen
  omega

end Surroundings

/-! ## 2. What a node that has kept an item offers -/

/-- The nodes bring no item without an owner, and one that holds an item brings it or a newer
    one. -/
theorem offers_of_walk {asker v : Peer} {seeds : List Peer} {alpha : Nat} {n : LocalNetwork}
    {x : Item} {m : Sequence}
    (ho : (Surroundings.keeping crowd clients k x.target start).Opens asker x.target seeds n)
    (howned : ∀ u ∈ crowd ++ clients, HasAt (ItemStore.Owned x.target) u.addr n)
    (hv : v ∈ crowd ++ clients)
    (hheld : HasAt (fun s => ItemStore.Owned x.target s ∧ s.Holds x m start) v.addr n)
    {w : Walk} (h : (Surroundings.keeping crowd clients k x.target start).WalkRun asker n
      (.ofSeeds asker.id x.target none k alpha seeds) w) :
    ∀ e ∈ w.underway, Offers x.target m v.id e := by
  have hall := ItemStore.endures_owned x.target start
  have hone := ItemStore.endures_holds x m start
  have hkeeps := h.keeps
    (fun n => (∀ u ∈ crowd ++ clients, HasAt (ItemStore.Owned x.target) u.addr n) ∧
      HasAt (fun s => ItemStore.Owned x.target s ∧ s.Holds x m start) v.addr n)
    (Offers x.target m v.id) ho
    (fun n n' ht hat => ⟨fun u hu => (hat.1 u hu).traffic hall hu ht, hat.2.traffic hone hv ht⟩)
    (fun now n u hu hready hnow hat => ?_) ⟨howned, hheld⟩
  · exact hkeeps.2.2
  refine ⟨⟨fun u' hu' => (hat.1 u' hu').deliver hall hu' hnow Surroundings.keeping_sends_get _ _,
    hat.2.deliver hone hv hnow Surroundings.keeping_sends_get _ _⟩, ?_, ?_⟩
  · intro reply item hreply hitem
    obtain ⟨node, hnode, hstore⟩ := hat.1 u hu
    rw [Network.get_reply hready.online hnode] at hreply
    cases hreply
    obtain ⟨kept, hlive, rfl⟩ := ItemStore.get_none_eq_some.1 hitem
    exact (hstore.kept kept (ItemStore.live?_eq_some.1 hlive).1).2.1
  · intro hid
    obtain rfl : u = v := List.inj_on_of_nodup_map ho.suits.distinct hu hv hid
    obtain ⟨node, hnode, hstore, kept, q, hkept, hlong, hq, hle, -⟩ := hat.2
    refine ⟨_, kept.item, Network.get_reply hready.online hnode, ?_, ?_, q, hq, hle⟩
    · have halive := (hnow.moment.2 u hu node hnode kept hkept).resolve_left (Int.not_lt.2 hlong)
      exact ItemStore.get_none_eq_some.2 ⟨kept, ItemStore.live?_eq_some.2 ⟨hkept, halive⟩, rfl⟩
    · obtain ⟨htarget, -, hverify⟩ := hstore.kept kept hkept
      rw [Item.holdsAt, htarget, hverify, beq_self_eq_true]
      rfl

/-! ## 3. A record that was put -/

/-- A search has found a record or a newer one of its key, and what it has found is signed for the
    key; otherwise the key and the salt of it collide with the key. -/
def SearchEnd.Finds (e : SearchEnd) (record : Record) : Prop :=
  ∃ item stats, e.result = .ok (item, stats) ∧ (FullGet.ofItem item).isMutable = true ∧
    record.sequence ≤ (FullGet.ofItem item).response.sequence ∧
    ((FullGet.ofItem item).response.Authentic record.key ∨
      ∃ key, item.key = some key ∧ Sha1.Collide (key.toList ++ item.salt) record.key.toList)

theorem SearchEnd.finds_of_atLeast {e : SearchEnd} {record : Record} {item : Item}
    {stats : LookupStats} (he : e.result = .ok (item, stats)) (hm : item.isMutable = true)
    (hnew : item.AtLeast record.item.target record.sequence) : e.Finds record := by
  obtain ⟨hholds, n, hn, hle⟩ := hnew
  have hsequence : (FullGet.ofItem item).response.sequence = n := by
    show item.seq.getD 0 = n
    rw [hn]
    rfl
  refine ⟨item, stats, he, hm, hsequence ▸ hle, ?_⟩
  have hself : (· = item) item := rfl
  rcases vouched_of_holdsAt hself hholds hm with hvouched | ⟨_, key, rfl, hkey, hcollide⟩
  · exact .inl hvouched.authentic
  · exact .inr ⟨key, hkey, hcollide⟩

/-- What a put leaves at a node. -/
theorem ItemStore.holds_of_put_item {record : Record} {s s' : ItemStore} {now : Stamp}
    (hs : s.Owned record.item.target) (hstart : start ≤ now.sinceEpoch)
    (h : s.put record.item now = .ok s') :
    s'.Owned record.item.target ∧ s'.Holds record.item record.sequence start := by
  constructor
  · have hrequest : ItemStore.OwnedAt record.item.target (.put record.item) := fun _ => rfl
    have hserved := hs.serve now hrequest
    rwa [ItemStore.serve_put_ok h] at hserved
  · obtain ⟨k, m, hk, hlong, hm⟩ := ItemStore.holds_of_put h rfl
    refine ⟨k, m, hk, Int.le_trans ?_ hlong, hm⟩
    unfold ItemStore.endOfLife
    omega

/-- The nodes that a client begins with, in a network where a lookup of it may begin. -/
theorem Surroundings.Ready.opens {s : Surroundings} {n : LocalNetwork} (h : s.Ready n)
    {asker : Peer} (hasker : asker ∈ s.servers) (hsuits : s.Suits asker target) (config : DhtConfig)
    (hsome : config.seeds ((Network.inProcess n).routing asker) target ≠ []) :
    s.Opens asker target (config.seeds ((Network.inProcess n).routing asker) target) n := by
  have hseeds := h.seeds hasker config target
  obtain ⟨first, hfirst⟩ := List.exists_mem_of_ne_nil _ hsome
  exact ⟨h, hsuits, fun p hp => (hseeds p hp).1, first, hfirst, (hseeds first hfirst).2.1⟩

/-- A search finds a record when one of the nearest nodes holds it or a newer one. -/
theorem Surroundings.GetRun.finds {n : LocalNetwork} {asker : Peer} {seeds : List Peer}
    {alpha : Nat} {record : Record} {w : Walk} {g : Search}
    (ho : (Surroundings.keeping crowd clients k record.item.target start).Opens asker
      record.item.target seeds n)
    (howned : ∀ v ∈ crowd ++ clients, HasAt (ItemStore.Owned record.item.target) v.addr n)
    (hstored : StoredNear (fun s => ItemStore.Owned record.item.target s ∧
      s.Holds record.item record.sequence start) crowd record.item.target k n)
    (h : (Surroundings.keeping crowd clients k record.item.target start).GetRun asker n
      (.ofSeeds asker.id record.item.target none k alpha seeds) w g) :
    (w.step.lookup.outstanding = 0 → ∃ e, g.receiveAll = .inr e ∧ e.Finds record) ∧
      ∀ e, g.receive = .inr e → e.Finds record := by
  obtain ⟨v, hv, hheld⟩ := hstored
  have hcrowd : (crowd.map (·.id)).Nodup := ho.suits.crowd_nodup
  have hmem := List.mem_append_left clients ((RoutingTable.mem_nearestOf hcrowd).1 hv).1
  have hguides := h.walk.guides ho
  have hsound := h.sound ho fun w hw => offers_of_walk ho howned hmem hheld hw
  -- The node is among those at the end of the lookup, so it has answered.
  have hpast : w.step.lookup.outstanding = 0 → ∃ reply, (v.id, reply) ∈ w.past := by
    intro hzero
    have hcontact : v.contact ∈ w.step.lookup.closest.map Peer.contact := by
      rw [hguides.closest_contacts ho hzero]
      exact List.mem_map_of_mem hv
    obtain ⟨p, hp, hcontact⟩ := List.mem_map.1 hcontact
    obtain ⟨reply, hreply⟩ := hguides.answered hzero hp
    rw [show p.id = v.id from congrArg Prod.fst hcontact] at hreply
    exact ⟨_, hreply⟩
  have hfinds : ∀ g' e, (Surroundings.keeping crowd clients k record.item.target start).GetSound
      asker n (.ofSeeds asker.id record.item.target none k alpha seeds) record.sequence v.id w g' →
      g'.receive = .inr e → e.Finds record := by
    intro g' e hsound he
    obtain ⟨item, stats, hresult, hm, hnew⟩ := hsound.ends hpast he
    exact SearchEnd.finds_of_atLeast hresult hm hnew
  refine ⟨fun hzero => ?_, fun e he => hfinds g e hsound he⟩
  obtain ⟨e, g', hall, hsound', he⟩ := hsound.receiveAll hzero
  exact ⟨e, hall, hfinds g' e hsound' he⟩

/-- A record that was put by one client is found by another one, or a newer one of its key is.
    Both are farther from the target than the nearest nodes of a crowd that all tables cover. The
    put has succeeded, maybe at its deadline and with a single acknowledgement; the search has nodes
    to begin with and comes to an end, in whatever order its queries are handled and come back, and
    whatever the nodes send each other before and meanwhile. -/
theorem get_after_put (crowd : List Peer) (a b : Peer) (config : DhtConfig) (record : Record)
    (target : NodeId) (start : Int) (n₀ n₁ n₂ : LocalNetwork) (stats : LookupStats) (w : Walk)
    (g : Search) (htarget : targetOfId (recordId record.key) = .ok target)
    (hids : ((crowd ++ [a, b]).map (·.id)).Nodup) (hlarge : config.k ≤ crowd.length)
    (hfar : ∀ v ∈ nearestOf crowd target config.k,
      distance target v.id < distance target a.id ∧ distance target v.id < distance target b.id)
    (hready : (Surroundings.keeping crowd [a, b] config.k target start).Ready n₀)
    (howned : ∀ v ∈ crowd ++ [a, b], HasAt (ItemStore.Owned target) v.addr n₀)
    (hseeds : config.seeds ((Network.inProcess n₀).routing a) record.item.target ≠ [])
    (hput : (Surroundings.keeping crowd [a, b] config.k target start).PutEnds a n₀ record.item
      (config.lookup a.id record.item.target none
        (config.seeds ((Network.inProcess n₀).routing a) record.item.target)) n₁ (.ok stats))
    (hbetween : Relation.ReflTransGen
      (Surroundings.keeping crowd [a, b] config.k target start).Traffic n₁ n₂)
    (hget : (Surroundings.keeping crowd [a, b] config.k target start).GetRun b n₂
      (config.lookup b.id target none (config.seeds ((Network.inProcess n₂).routing b) target))
      w g) :
    config.seeds ((Network.inProcess n₂).routing b) target ≠ [] ∧
      w.past.length ≤ crowd.length + 2 ∧
      (w.step.lookup.outstanding ≠ 0 →
        (Surroundings.keeping crowd [a, b] config.k target start).GoesOn b w) ∧
      (w.step.lookup.outstanding = 0 → ∃ e, g.receiveAll = .inr e ∧ e.Finds record) ∧
      ∀ e, g.receive = .inr e → e.Finds record := by
  obtain rfl : record.item.target = target := by
    have hkey : targetOfId (recordId record.key) = .ok (NodeId.ofKey record.key []) := by
      simp only [targetOfId, readRecordId_recordId]
    exact Except.ok.inj (hkey.symm.trans htarget)
  have ha : a ∈ crowd ++ [a, b] := by simp
  have hb : b ∈ crowd ++ [a, b] := by simp
  have hk : 1 ≤ config.k := by
    obtain ⟨seed, hseed⟩ := List.exists_mem_of_ne_nil _ hseeds
    exact (hready.seeds ha config record.item.target seed hseed).2.2
  have hsuits : ∀ {c : Peer}, c ∈ [a, b] →
      (Surroundings.keeping crowd [a, b] config.k record.item.target start).Suits c
        record.item.target :=
    Surroundings.suits_keeping_pair hk hids hlarge hfar
  obtain ⟨⟨v, hv, hheld⟩, hready₁, howned₁⟩ := hput.stored
    (hready.opens ha (hsuits (by simp)) config hseeds) howned rfl
    (ItemStore.endures_holds record.item record.sequence start)
    (fun s s' now hs hstart h => ItemStore.holds_of_put_item hs hstart h)
  have hvcrowd : v ∈ crowd :=
    ((RoutingTable.mem_nearestOf (hsuits (by simp : a ∈ [a, b])).crowd_nodup).1 hv).1
  -- What is true after the put is true when the get begins.
  have hready₂ := hready₁.traffics hbetween
  have howned₂ := fun u hu =>
    (howned₁ u hu).traffics (ItemStore.endures_owned record.item.target start) hu hbetween
  have hheld₂ := hheld.traffics (ItemStore.endures_holds record.item record.sequence start)
    (List.mem_append_left _ hvcrowd) hbetween
  have hforeign : v.id ≠ b.id := fun heq => (hsuits (by simp : b ∈ [a, b])).foreign
    (heq ▸ List.mem_map_of_mem hvcrowd)
  have hsome := hready₂.seeds_ne_nil hb config record.item.target hk hk hvcrowd hforeign
  have hopens := hready₂.opens hb (hsuits (by simp)) config hsome
  have hguides := hget.walk.guides hopens
  refine ⟨hsome, ?_, hguides.goesOn hopens, hget.finds hopens howned₂ ⟨v, hv, hheld₂⟩⟩
  have hle := hguides.length_past_le hopens
  rwa [show (Surroundings.keeping crowd [a, b] config.k record.item.target start).servers =
    crowd ++ [a, b] from rfl, List.length_append] at hle

/-- One client puts a record by way of the farther of two nodes, and another client that knows the
    nearer one finds it. -/
theorem get_after_put_over_two :
    ∃ (n₀ n₁ : LocalNetwork) (config : DhtConfig) (target : NodeId) (stats : LookupStats) (w : Walk)
      (g : Search),
      targetOfId (recordId neutralKey) = .ok target ∧
      (Surroundings.keeping [peerOf 24, peerOf 25] [peerOf 8, peerOf 16] config.k target 0).Ready
        n₀ ∧
      (Surroundings.keeping [peerOf 24, peerOf 25] [peerOf 8, peerOf 16] config.k target 0).PutEnds
        (peerOf 8) n₀ (neutralRecord [1] 5).item (config.lookup 8 target none [peerOf 25]) n₁
        (.ok stats) ∧
      (Surroundings.keeping [peerOf 24, peerOf 25] [peerOf 8, peerOf 16] config.k target 0).GetRun
        (peerOf 16) n₁ (config.lookup 16 target none [peerOf 24]) w g ∧
      w.step.lookup.outstanding = 0 ∧
      config.seeds ((Network.inProcess n₁).routing (peerOf 16)) target ≠ [] ∧
      w.past.length ≤ 4 ∧
      (w.step.lookup.outstanding ≠ 0 →
        (Surroundings.keeping [peerOf 24, peerOf 25] [peerOf 8, peerOf 16] config.k target 0).GoesOn
          (peerOf 16) w) ∧
      (w.step.lookup.outstanding = 0 → ∃ e, g.receiveAll = .inr e ∧
        e.Finds (neutralRecord [1] 5)) ∧
      ∀ e, g.receive = .inr e → e.Finds (neutralRecord [1] 5) := by
  let target : NodeId := 1163782157773182030005528964406891989878860177496
  let item := (neutralRecord [1] 5).item
  let config : DhtConfig := ⟨1, 3, 2000, 900000, 7200000⟩
  let s := Surroundings.keeping [peerOf 24, peerOf 25] [peerOf 8, peerOf 16] config.k target 0
  let nodes : List (NodeId × List NodeId) := [(24, [25]), (25, [24]), (8, [25]), (16, [24])]
  let n₀ := networkOf nodes
  let w₀ : Walk := .begin n₀ (config.lookup 8 target none [peerOf 25])
  let w₁ := w₀.serve (peerOf 8) default (peerOf 25) ⟨none, [peerOf 24]⟩
  let w₂ := w₁.serve (peerOf 8) default (peerOf 24) ⟨none, [peerOf 25]⟩
  let learned := w₂.network.modify (peerOf 8).addr (LocalNetwork.introduced default [peerOf 24])
  let n₁ := (learned.deliver default (peerOf 8).addr (peerOf 24).addr (.put (peerOf 8) item 0)).1
  let w₃ : Walk := .begin n₁ (config.lookup 16 target none [peerOf 24])
  let w₄ := w₃.serve (peerOf 16) default (peerOf 24) ⟨some item, [peerOf 25]⟩
  have htarget : NodeId.ofKey neutralKey [] = target := by decide +kernel
  have hkey : targetOfId (recordId neutralKey) = .ok target := by
    simp only [targetOfId, readRecordId_recordId, htarget]
  have hids : (([peerOf 24, peerOf 25] ++ [peerOf 8, peerOf 16]).map (·.id)).Nodup := by
    decide +kernel
  have hready : s.Ready n₀ := ready_networkOf rfl rfl (by decide +kernel) (by decide +kernel)
  have howned : ∀ v ∈ [peerOf 24, peerOf 25] ++ [peerOf 8, peerOf 16],
      HasAt (ItemStore.Owned target) v.addr n₀ := by
    intro v hv
    obtain ⟨e, he, rfl⟩ := List.mem_map.1 (show v ∈ nodes.map fun e => peerOf e.1 from hv)
    exact ⟨_, node?_networkOf (by decide +kernel) he, ItemStore.owned_empty target _⟩
  have hfar : ∀ v ∈ nearestOf [peerOf 24, peerOf 25] target 1,
      distance target v.id < distance target (peerOf 8).id ∧
        distance target v.id < distance target (peerOf 16).id := by
    have hsorted : Ascending target [peerOf 24, peerOf 25] := by decide +kernel
    rw [← RoutingTable.eq_nearestOf_of_ascending hsorted (.refl _) 1]
    decide +kernel
  have hone : ∀ {table : RoutingTable} {p : Peer}, [p].Perm table.nodes →
      config.seeds table target = [p] := fun {_ p} hperm =>
    (RoutingTable.eq_nearestOf_of_ascending (List.pairwise_singleton _ p) hperm 3).symm
  have hseeds₀ : config.seeds ((Network.inProcess n₀).routing (peerOf 8)) target = [peerOf 25] :=
    hone (by decide +kernel)
  have hsuits : s.Suits (peerOf 8) target :=
    Surroundings.suits_keeping_pair (by decide) hids (by decide) hfar List.mem_cons_self
  have hopens : s.Opens (peerOf 8) target [peerOf 25] n₀ := by
    rw [← hseeds₀]
    exact hready.opens (by decide +kernel) hsuits config (by rw [hseeds₀]; decide)
  -- The put asks both nodes, and then the nearer one keeps the item.
  have hrun₁ : s.WalkRun (peerOf 8) n₀ (config.lookup 8 target none [peerOf 25]) w₁ :=
    Surroundings.WalkRun.begins.serves
      (Surroundings.timely_keeping (by decide) (by decide +kernel)) (peerOf 25) ⟨none, [peerOf 24]⟩
      (by decide +kernel) (by decide +kernel) (by decide +kernel)
      (Network.get_sorted [peerOf 24, peerOf 8] 1 rfl (by decide +kernel) (by decide +kernel))
  have hrun₂ : s.WalkRun (peerOf 8) n₀ (config.lookup 8 target none [peerOf 25]) w₂ :=
    hrun₁.serves
      (Surroundings.timely_keeping (by decide) (by decide +kernel)) (peerOf 24) ⟨none, [peerOf 25]⟩
      (by decide +kernel) (by decide +kernel) (by decide +kernel)
      (Network.get_sorted [peerOf 25, peerOf 8] 1 rfl (by decide +kernel) (by decide +kernel))
  have hput₂ : s.PutRun (peerOf 8) n₀ item (config.lookup 8 target none [peerOf 25]) w₂
      ⟨item, w₂.step.lookup, .searching w₂.step.events⟩ [] := hrun₂.puts hopens
  have hevents : w₂.step.events = [.stalled [peerOf 24]] := by decide +kernel
  rw [hevents] at hput₂
  have hnow₂ : s.Timely default w₂.network :=
    Surroundings.timely_keeping (by decide) (by decide +kernel)
  have hput₃ := hput₂.sends rfl hnow₂ (show _ = Network.inProcess learned from rfl)
  have hnow₃ : s.Timely default learned :=
    Surroundings.timely_keeping (by decide) (by decide +kernel)
  have hkept : ((Network.inProcess learned).put default (peerOf 8) (peerOf 24).addr item).2 =
      true := by
    decide +kernel
  have hhandled : (Network.inProcess learned).put default (peerOf 8) (peerOf 24).addr item =
      (.inProcess n₁, true) := Prod.ext (Network.put_network _ _ _ _ _) hkept
  have hput := hput₃.ends rfl (fun _ hack => (nomatch hack)) hnow₃ hhandled
  -- The get asks the nearer node only.
  have hseeds₁ : config.seeds ((Network.inProcess n₁).routing (peerOf 16)) target = [peerOf 24] :=
    hone (by decide +kernel)
  have hrun₄ : s.WalkRun (peerOf 16) n₁ (config.lookup 16 target none [peerOf 24]) w₄ :=
    Surroundings.WalkRun.begins.serves
      (Surroundings.timely_keeping (by decide) (by decide +kernel)) (peerOf 24)
      ⟨some item, [peerOf 25]⟩ (by decide +kernel) (by decide +kernel) (by decide +kernel)
      (Network.get_sorted [peerOf 25, peerOf 16, peerOf 8] 1 (by decide +kernel)
        (by decide +kernel) (by decide +kernel))
  obtain ⟨g, hget⟩ := hrun₄.searches
  have hitem : (neutralRecord [1] 5).item.target = target := htarget
  have hresult := get_after_put [peerOf 24, peerOf 25] (peerOf 8) (peerOf 16) config
    (neutralRecord [1] 5) target 0 n₀ n₁ n₁ _ w₄ g hkey hids (by decide) hfar hready howned
    (by rw [hitem, hseeds₀]; decide) (by rw [hitem, hseeds₀]; exact hput) .refl
    (by rw [hseeds₁]; exact hget)
  have hdone : w₄.step.lookup.outstanding = 0 := by decide +kernel
  exact ⟨n₀, n₁, config, target, _, w₄, g, hkey, hready, hput, hget, hdone, hresult⟩

end SignedRecords
