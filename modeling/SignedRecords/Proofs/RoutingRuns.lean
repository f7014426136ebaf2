import SignedRecords.Proofs.RoutingTables

/-!
# Runs of a routing table

A table hears from nodes, is told to drop some, and sweeps out the expired ones, while the clock
does not go back. Its buckets and its map are changed apart, and still hold the same nodes.

A node that was heard from goes to the end of its bucket. So every bucket stands in the order in
which its nodes were heard from, and the first node of a full bucket is the one to look at: if it
is not expired, none is.

Main statement: `table_in_runs`.
-/

namespace SignedRecords

/-- What is asked of a routing table. -/
inductive TableRequest where
  /-- A node was heard from. -/
  | update (node : Peer)
  | remove (id : NodeId)
  /-- Sweeps out what is expired. -/
  | sweep
  deriving DecidableEq

/-- Requests to a routing table, the first one first, each with its moment. -/
abbrev TableRun := List (Stamp × TableRequest)

/-- The clock does not go back. -/
def TableRun.Timely (run : TableRun) : Prop :=
  run.Pairwise fun a b => a.1.sinceEpoch ≤ b.1.sinceEpoch

namespace RoutingTable

/-- The table after a request. -/
def serve (t : RoutingTable) (now : Stamp) : TableRequest → RoutingTable
  | .update node => (t.update node now).1
  | .remove id => (t.remove id).1
  | .sweep => (t.removeExpired now).1

/-- The table after a run. -/
def after (t : RoutingTable) : TableRun → RoutingTable
  | [] => t
  | (now, request) :: rest => (t.serve now request).after rest

/-! ## 1. Dropping nodes -/

/-- A table from which nodes were dropped, in both views alike. -/
structure Drops (t : RoutingTable) (keep : Peer → Bool) (after : RoutingTable) : Prop where
  localId : after.localId = t.localId
  bucketSize : after.bucketSize = t.bucketSize
  width : after.buckets.length = t.buckets.length
  bucket : ∀ i, after.bucket i = (t.bucket i).filter keep
  nodes : after.nodes = t.nodes.filter keep

/-- Only the bucket of the id is searched, and no other one has it. -/
theorem Consistent.drops_remove {t : RoutingTable} (h : t.Consistent) (id : NodeId) :
    t.Drops (·.id != id) (t.remove id).1 where
  localId := rfl
  bucketSize := rfl
  width := List.length_set
  bucket i := by
    refine (bucket_set h.width id _ i).trans ?_
    by_cases hi : i = t.bucketIndex id
    · rw [if_pos hi, hi]
    · rw [if_neg hi, List.filter_eq_self.2]
      intro p hp
      rw [bne_iff_ne]
      rintro rfl
      exact hi (h.placed i p hp).2.symm
  nodes := rfl

theorem drops_removeExpired (t : RoutingTable) (now : Stamp) :
    t.Drops (fun p => !p.isExpired now t.nodeTtl) (t.removeExpired now).1 where
  localId := rfl
  bucketSize := rfl
  width := List.length_map _
  bucket i := by
    unfold RoutingTable.bucket removeExpired
    rw [List.getD_eq_getElem?_getD, List.getD_eq_getElem?_getD, List.getElem?_map]
    cases t.buckets[i]? <;> rfl
  nodes := rfl

theorem Consistent.of_drops {t after : RoutingTable} {keep : Peer → Bool} (h : t.Consistent)
    (hd : t.Drops keep after) : after.Consistent := by
  have hindex : ∀ id, after.bucketIndex id = t.bucketIndex id := by
    intro id
    unfold bucketIndex
    rw [hd.localId]
  constructor
  case width => exact hd.width.trans h.width
  case placed =>
    intro i p hp
    rw [hd.localId, hindex]
    rw [hd.bucket] at hp
    exact h.placed i p (List.mem_of_mem_filter hp)
  case bounded =>
    intro i
    rw [hd.bucket, hd.bucketSize]
    exact Nat.le_trans (List.length_filter_le _ _) (h.bounded i)
  case once =>
    intro i
    rw [hd.bucket]
    exact (h.once i).sublist (List.filter_sublist.map _)
  case distinct =>
    rw [hd.nodes]
    exact h.distinct.sublist (List.filter_sublist.map _)
  case same =>
    intro p
    rw [hd.nodes, hindex, hd.bucket, List.mem_filter, List.mem_filter, h.same]

/-! ## 2. The order of a bucket -/

/-- One node was heard from no later than another. -/
def NoLater (p q : Peer) : Prop := p.lastSeen.sinceEpoch ≤ q.lastSeen.sinceEpoch

/-- A table that has been in use up to a moment: no node was heard from later, and the buckets are
    in the order in which their nodes were heard from. -/
structure InUse (t : RoutingTable) (now : Int) : Prop where
  consistent : t.Consistent
  seen : ∀ i, ∀ p ∈ t.bucket i, p.lastSeen.sinceEpoch ≤ now
  ordered : ∀ i, (t.bucket i).Pairwise NoLater

theorem inUse_empty (localId : NodeId) (bucketSize nodeTtl : Nat) (now : Int) :
    (empty localId bucketSize nodeTtl).InUse now := by
  refine ⟨consistent_empty _ _ _, fun i p hp => ?_, fun i => ?_⟩
  · rw [bucket_empty] at hp
    cases hp
  · rw [bucket_empty]
    exact .nil

theorem InUse.later {t : RoutingTable} {now later : Int} (h : t.InUse now) (hle : now ≤ later) :
    t.InUse later :=
  ⟨h.consistent, fun i p hp => Int.le_trans (h.seen i p hp) hle, h.ordered⟩

theorem InUse.of_drops {t after : RoutingTable} {keep : Peer → Bool} {now : Int} (h : t.InUse now)
    (hd : t.Drops keep after) : after.InUse now := by
  refine ⟨h.consistent.of_drops hd, fun i p hp => ?_, fun i => ?_⟩
  · rw [hd.bucket] at hp
    exact h.seen i p (List.mem_of_mem_filter hp)
  · rw [hd.bucket]
    exact (h.ordered i).sublist List.filter_sublist

/-- The node that was heard from last stands at the end. -/
theorem InUse.of_records {t after : RoutingTable} {node : Peer} {now : Stamp} {gone : NodeId}
    (h : t.InUse now.sinceEpoch) (hr : t.Records (node.touched now) now gone after) :
    after.InUse now.sinceEpoch := by
  refine ⟨h.consistent.of_records hr, fun i p hp => ?_, fun i => ?_⟩
  · rcases hr.mem_bucket.1 hp with ⟨-, rfl⟩ | ⟨hp, -⟩
    · exact Int.le_refl _
    · exact h.seen i p hp
  · rw [hr.bucket]
    split
    · refine List.pairwise_append.2 ⟨(h.ordered i).sublist List.filter_sublist,
        List.pairwise_singleton _ _, fun p hp q hq => ?_⟩
      rw [List.mem_singleton.1 hq]
      exact h.seen i p (List.mem_of_mem_filter hp)
    · exact h.ordered i

theorem InUse.serve {t : RoutingTable} {now : Stamp} (h : t.InUse now.sinceEpoch)
    (request : TableRequest) : (t.serve now request).InUse now.sinceEpoch := by
  cases request with
  | update node =>
    rcases update_cases h.consistent node now with ⟨hsame, -⟩ | ⟨-, gone, hr⟩
    · rw [RoutingTable.serve, hsame]
      exact h
    · exact h.of_records hr
  | remove id => exact h.of_drops (h.consistent.drops_remove id)
  | sweep => exact h.of_drops (t.drops_removeExpired now)

theorem InUse.after {t : RoutingTable} {start : Int} (h : t.InUse start) {run : TableRun}
    (htime : run.Timely) (hstart : ∀ e ∈ run, start ≤ e.1.sinceEpoch) :
    ∃ now, (t.after run).InUse now := by
  induction run generalizing t start with
  | nil => exact ⟨start, h⟩
  | cons e rest ih =>
    obtain ⟨moment, request⟩ := e
    obtain ⟨hrest, htimely⟩ := List.pairwise_cons.1 htime
    rw [List.forall_mem_cons] at hstart
    exact ih ((h.later hstart.1).serve request) htimely hrest

/-- In a bucket whose first node is not expired, none is. -/
theorem InUse.unexpired {t : RoutingTable} {now : Int} (h : t.InUse now) {i : Nat} {moment : Stamp}
    (hfirst : ∀ p, (t.bucket i).head? = some p → p.isExpired moment t.nodeTtl = false) :
    ∀ p ∈ t.bucket i, p.isExpired moment t.nodeTtl = false := by
  intro p hp
  have hordered := h.ordered i
  cases hhere : t.bucket i with
  | nil =>
    rw [hhere] at hp
    cases hp
  | cons first rest =>
    rw [hhere] at hp hordered hfirst
    have hone := hfirst first rfl
    rcases List.mem_cons.1 hp with rfl | hp
    · exact hone
    · have hle : NoLater first p := (List.pairwise_cons.1 hordered).1 p hp
      unfold NoLater at hle
      unfold Peer.isExpired Stamp.olderThan at hone ⊢
      rw [decide_eq_false_iff_not] at hone ⊢
      omega

/-! ## 3. What a run leaves -/

theorem mem_flatten_buckets {t : RoutingTable} {p : Peer} :
    p ∈ t.buckets.flatten ↔ ∃ i, p ∈ t.bucket i := by
  rw [List.mem_flatten]
  constructor
  · rintro ⟨b, hb, hp⟩
    obtain ⟨i, hi⟩ := List.mem_iff_getElem?.1 hb
    refine ⟨i, ?_⟩
    rwa [bucket, List.getD_eq_getElem?_getD, hi]
  · rintro ⟨i, hp⟩
    rw [bucket, List.getD_eq_getElem?_getD] at hp
    cases hb : t.buckets[i]? with
    | none =>
      rw [hb] at hp
      cases hp
    | some b =>
      rw [hb] at hp
      exact ⟨b, List.mem_of_getElem? hb, hp⟩

/-- No node is in two buckets. -/
theorem Consistent.nodup_flatten {t : RoutingTable} (h : t.Consistent) :
    t.buckets.flatten.Nodup := by
  have hget : ∀ i (hi : i < t.buckets.length), t.buckets[i] = t.bucket i := by
    intro i hi
    rw [bucket, List.getD_eq_getElem?_getD, List.getElem?_eq_getElem hi, Option.getD_some]
  rw [List.nodup_flatten]
  constructor
  · intro b hb
    obtain ⟨i, hi, rfl⟩ := List.mem_iff_getElem.1 hb
    rw [hget]
    exact (h.once i).of_map _
  · rw [List.pairwise_iff_getElem]
    intro i j hi hj hlt p hp hq
    rw [hget] at hp hq
    have hplace := (h.placed i p hp).2.symm.trans (h.placed j p hq).2
    omega

theorem Consistent.perm_buckets {t : RoutingTable} (h : t.Consistent) :
    t.nodes.Perm t.buckets.flatten := by
  rw [List.perm_ext_iff_of_nodup (h.distinct.of_map _) h.nodup_flatten]
  intro p
  rw [mem_flatten_buckets]
  constructor
  · exact fun hp => ⟨_, (h.same p).1 hp⟩
  · rintro ⟨i, hp⟩
    exact h.mem_of_bucket hp

theorem Consistent.partAt {t : RoutingTable} (h : t.Consistent) {i : Nat} {p : Peer}
    (hp : p ∈ t.bucket i) : t.localId.PartAt p.id i := by
  obtain ⟨hne, rfl⟩ := h.placed i p hp
  exact partAt_bucketIndex hne

/-- What becomes of a table that hears from a node, and of the nodes that it knew. -/
structure Takes (t : RoutingTable) (node : Peer) (now : Stamp) : Prop where
  /-- The answer says whether the node is in the table afterwards, as one heard from now. -/
  answers : (t.update node now).2 = true ↔ node.touched now ∈ (t.update node now).1.nodes
  /-- If it is not, the id is not there at all. -/
  absent : (t.update node now).2 = false → ∀ p ∈ (t.update node now).1.nodes, p.id ≠ node.id
  /-- A new node is refused where its bucket is full of nodes that are not expired. -/
  refused : node.id ≠ t.localId → (∀ p ∈ t.nodes, p.id ≠ node.id) →
    ((t.update node now).2 = false ↔ t.bucketSize ≤ (t.bucket (t.bucketIndex node.id)).length ∧
      ∀ p ∈ t.bucket (t.bucketIndex node.id), p.isExpired now t.nodeTtl = false)
  /-- A node that leaves is expired, and nobody in the bucket was heard from earlier. -/
  evicted : ∀ p ∈ t.nodes, p.id ≠ node.id → p ∉ (t.update node now).1.nodes →
    p.isExpired now t.nodeTtl = true ∧ p ∈ t.bucket (t.bucketIndex node.id) ∧
      ∀ q ∈ t.bucket (t.bucketIndex node.id), NoLater p q
  /-- At most one leaves. -/
  single : ∀ p ∈ t.nodes, p.id ≠ node.id → p ∉ (t.update node now).1.nodes →
    ∀ q ∈ t.nodes, q.id ≠ node.id → q ∉ (t.update node now).1.nodes → p = q

/-- A node whose bucket does not know it is not in the table. -/
theorem Consistent.id_mem_bucket {t : RoutingTable} (h : t.Consistent) {id : NodeId} :
    id ∈ (t.bucket (t.bucketIndex id)).map (·.id) ↔ ∃ p ∈ t.nodes, p.id = id := by
  rw [List.mem_map]
  constructor
  · rintro ⟨p, hp, hid⟩
    exact ⟨p, h.mem_of_bucket hp, hid⟩
  · rintro ⟨p, hp, rfl⟩
    exact ⟨p, (h.same p).1 hp, rfl⟩

/-- Where a node is recorded, the table had no reason to refuse it. -/
theorem Records.not_refuses {t after : RoutingTable} {node : Peer} {now : Stamp} {gone : NodeId}
    (h : t.Records (node.touched now) now gone after) : ¬ t.Refuses node now := by
  rintro (hown | ⟨hnew, hfull, hfirst⟩)
  · exact h.foreign hown
  · rcases h.room with hgone | ⟨p, hp, -, hexpired⟩
    · have hall : (t.bucket (t.bucketIndex node.id)).filter (·.id != gone) =
          t.bucket (t.bucketIndex node.id) := by
        refine List.filter_eq_self.2 fun p hp => bne_iff_ne.2 fun e => hnew ?_
        exact List.mem_map.2 ⟨p, hp, e.trans hgone⟩
      have hbounded : ((t.bucket (t.bucketIndex node.id)).filter (·.id != gone)).length <
        t.bucketSize := h.bounded
      rw [hall] at hbounded
      omega
    · have hunexpired := hfirst p hp
      rw [hexpired] at hunexpired
      cases hunexpired

/-- The answer of a table that hears from a node. -/
theorem update_eq_false {t : RoutingTable} (h : t.Consistent) (node : Peer) (now : Stamp) :
    (t.update node now).2 = false ↔ t.Refuses node now := by
  rcases update_cases h node now with ⟨hsame, hrefuses⟩ | ⟨htrue, gone, hr⟩
  · rw [hsame]
    exact iff_of_true rfl hrefuses
  · rw [htrue]
    exact iff_of_false Bool.noConfusion hr.not_refuses

/-- What a recorded node displaces is the first one of its bucket, and expired. -/
theorem Records.displaced {t after : RoutingTable} {node : Peer} {now : Stamp} {gone : NodeId}
    (h : t.Records node now gone after) (hc : t.Consistent) {p : Peer} (hp : p ∈ t.nodes)
    (hne : p.id ≠ node.id) (hgone : p ∉ after.nodes) :
    (t.bucket (t.bucketIndex node.id)).head? = some p ∧ p.isExpired now t.nodeTtl = true := by
  have hid : p.id = gone := by
    by_contra hid
    exact hgone ((h.nodes p).2 (.inr ⟨hp, hid, hne⟩))
  rcases h.room with hnode | ⟨q, hq, hqid, hexpired⟩
  · exact absurd (hid.trans hnode) hne
  · have hqmem := hc.mem_of_bucket (List.mem_of_mem_head? hq)
    obtain rfl := List.inj_on_of_nodup_map hc.distinct hp hqmem (hid.trans hqid.symm)
    exact ⟨hq, hexpired⟩

/-- Where a node is refused nothing changes, and its id is not in the table. -/
theorem InUse.takes_of_refuses {t : RoutingTable} {now : Int} (h : t.InUse now) {node : Peer}
    {moment : Stamp} (hsame : t.update node moment = (t, false))
    (hrefuses : t.Refuses node moment) : t.Takes node moment := by
  have hc := h.consistent
  have habsent : ∀ p ∈ t.nodes, p.id ≠ node.id := by
    intro p hp hid
    rcases hrefuses with hown | ⟨hnew, -⟩
    · exact hc.ne_localId hp (hid.trans hown)
    · exact hnew (hc.id_mem_bucket.2 ⟨p, hp, hid⟩)
  constructor
  case answers =>
    rw [hsame]
    exact iff_of_false Bool.noConfusion fun hmem => habsent _ hmem rfl
  case absent =>
    rw [hsame]
    exact fun _ => habsent
  case refused =>
    intro hforeign hnew
    refine (update_eq_false hc node moment).trans ⟨fun _ => ?_, fun _ => hrefuses⟩
    obtain ⟨-, hfull, hfirst⟩ := hrefuses.resolve_left hforeign
    exact ⟨hfull, h.unexpired hfirst⟩
  case evicted =>
    intro p hp _ hgone
    rw [hsame] at hgone
    exact absurd hp hgone
  case single =>
    intro p hp _ hgone
    rw [hsame] at hgone
    exact absurd hp hgone

/-- Where a node is recorded, what leaves is the first one of its bucket. -/
theorem InUse.takes_of_records {t : RoutingTable} {now : Int} (h : t.InUse now) {node : Peer}
    {moment : Stamp} {gone : NodeId} (htrue : (t.update node moment).2 = true)
    (hr : t.Records (node.touched moment) moment gone (t.update node moment).1) :
    t.Takes node moment := by
  have hc := h.consistent
  have hdisplaced := fun p hp hne hgone => hr.displaced hc (p := p) hp hne hgone
  constructor
  case answers => exact iff_of_true htrue ((hr.nodes _).2 (.inl rfl))
  case absent =>
    rw [htrue]
    exact Bool.noConfusion
  case refused =>
    intro hforeign hnew
    refine (update_eq_false hc node moment).trans
      ⟨fun hrefuses => absurd hrefuses hr.not_refuses, ?_⟩
    rintro ⟨hfull, hunexpired⟩
    refine .inr ⟨fun hmem => ?_, hfull, fun p hp => hunexpired p (List.mem_of_mem_head? hp)⟩
    obtain ⟨p, hp, hid⟩ := hc.id_mem_bucket.1 hmem
    exact hnew p hp hid
  case evicted =>
    intro p hp hne hgone
    obtain ⟨hfirst, hexpired⟩ := hdisplaced p hp hne hgone
    have hordered := h.ordered (t.bucketIndex node.id)
    obtain ⟨rest, hhere⟩ := List.head?_eq_some_iff.1 hfirst
    refine ⟨hexpired, List.mem_of_mem_head? hfirst, fun q hq => ?_⟩
    change (t.bucket (t.bucketIndex node.id)) = p :: rest at hhere
    rw [hhere] at hq hordered
    rcases List.mem_cons.1 hq with rfl | hq
    · exact Int.le_refl _
    · exact (List.pairwise_cons.1 hordered).1 q hq
  case single =>
    intro p hp hne hgone q hq hqne hqgone
    have hboth := (hdisplaced p hp hne hgone).1.symm.trans (hdisplaced q hq hqne hqgone).1
    exact Option.some.inj hboth

theorem InUse.takes {t : RoutingTable} {now : Int} (h : t.InUse now) (node : Peer)
    (moment : Stamp) : t.Takes node moment := by
  rcases update_cases h.consistent node moment with ⟨hsame, hrefuses⟩ | ⟨htrue, gone, hr⟩
  · exact h.takes_of_refuses hsame hrefuses
  · exact h.takes_of_records htrue hr

end RoutingTable

end SignedRecords
