import Mathlib.Data.List.Nodup
import SignedRecords.Proofs.Prefixes

/-!
# Routing tables

The buckets and the map of a routing table hold the same nodes, each id once and in the bucket of
its shared leading bits. Recording a node either leaves the table alone or puts the node at the end
of its bucket, where one entry may have made room: the older one of the same node, or an expired
one.

A table covers a crowd when each bucket knows all of the crowd that belong there, or as many as it
can hold. A table whose nodes are not expired covers a crowd ever after.

Main statements: `Consistent.updateAll` and `Covers.update`.
-/

namespace SignedRecords.RoutingTable

/-! ## 1. One content, two views -/

/-- The buckets and the map agree, and nobody is in the wrong place. -/
structure Consistent (t : RoutingTable) : Prop where
  width : t.buckets.length = bucketCount
  placed : ∀ i, ∀ p ∈ t.bucket i, p.id ≠ t.localId ∧ t.bucketIndex p.id = i
  bounded : ∀ i, (t.bucket i).length ≤ t.bucketSize
  once : ∀ i, ((t.bucket i).map (·.id)).Nodup
  distinct : (t.nodes.map (·.id)).Nodup
  same : ∀ p, p ∈ t.nodes ↔ p ∈ t.bucket (t.bucketIndex p.id)

@[simp] theorem bucket_empty (localId : NodeId) (bucketSize nodeTtl i : Nat) :
    (empty localId bucketSize nodeTtl).bucket i = [] := by
  unfold bucket empty
  rw [List.getD_eq_getElem?_getD, List.getElem?_replicate]
  split <;> rfl

theorem consistent_empty (localId : NodeId) (bucketSize nodeTtl : Nat) :
    (empty localId bucketSize nodeTtl).Consistent := by
  constructor
  case width => exact List.length_replicate
  case placed =>
    intro i p hp
    rw [bucket_empty] at hp
    cases hp
  case bounded =>
    intro i
    rw [bucket_empty]
    exact Nat.zero_le _
  case once =>
    intro i
    rw [bucket_empty]
    exact List.nodup_nil
  case distinct => exact List.nodup_nil
  case same =>
    intro p
    rw [bucket_empty]
    rfl

theorem bucketIndex_lt (t : RoutingTable) (id : NodeId) : t.bucketIndex id < bucketCount := by
  unfold bucketIndex bucketCount
  omega

theorem bucketIndex_of_ne {t : RoutingTable} {id : NodeId} (h : id ≠ t.localId) :
    t.bucketIndex id = t.localId.sharedBits id := by
  have hlt := NodeId.sharedBits_lt fun e => h e.symm
  unfold bucketIndex bucketCount
  omega

/-- The bucket of an id is that of the leading bits which it shares with the table's own. -/
theorem partAt_bucketIndex {t : RoutingTable} {id : NodeId} (h : id ≠ t.localId) :
    t.localId.PartAt id (t.bucketIndex id) := by
  rw [bucketIndex_of_ne h]
  exact NodeId.partAt_sharedBits fun e => h e.symm

theorem Consistent.mem_of_bucket {t : RoutingTable} (h : t.Consistent) {i : Nat} {p : Peer}
    (hp : p ∈ t.bucket i) : p ∈ t.nodes := by
  rw [h.same, (h.placed i p hp).2]
  exact hp

theorem Consistent.ne_localId {t : RoutingTable} (h : t.Consistent) {p : Peer}
    (hp : p ∈ t.nodes) : p.id ≠ t.localId :=
  (h.placed _ p ((h.same p).1 hp)).1

/-! ## 2. What recording a node does -/

theorem mem_insertNode {node : Peer} {nodes : List Peer} (h : (nodes.map (·.id)).Nodup) :
    ((insertNode node nodes).map (·.id)).Nodup ∧
      ∀ p, p ∈ insertNode node nodes ↔ p = node ∨ (p ∈ nodes ∧ p.id ≠ node.id) := by
  induction nodes with
  | nil => simp [insertNode]
  | cons q rest ih =>
    rw [List.map_cons, List.nodup_cons] at h
    obtain ⟨hq, hrest⟩ := h
    have hne : ∀ p ∈ rest, p.id ≠ q.id := fun p hp e => hq (e ▸ List.mem_map_of_mem hp)
    obtain ⟨ihn, ihm⟩ := ih hrest
    unfold insertNode
    by_cases hid : q.id = node.id
    · rw [if_pos hid]
      constructor
      · rw [List.map_cons, List.nodup_cons, ← hid]
        exact ⟨hq, hrest⟩
      · intro p
        rw [List.mem_cons, List.mem_cons]
        constructor
        · rintro (rfl | hp)
          · exact .inl rfl
          · exact .inr ⟨.inr hp, hid ▸ hne p hp⟩
        · rintro (rfl | ⟨rfl | hp, hpid⟩)
          · exact .inl rfl
          · exact absurd hid hpid
          · exact .inr hp
    · rw [if_neg hid]
      constructor
      · rw [List.map_cons, List.nodup_cons]
        refine ⟨fun hmem => ?_, ihn⟩
        obtain ⟨p, hp, heq⟩ := List.mem_map.1 hmem
        rcases (ihm p).1 hp with rfl | ⟨hp, -⟩
        · exact hid heq.symm
        · exact hne p hp heq
      · intro p
        rw [List.mem_cons, List.mem_cons, ihm]
        constructor
        · rintro (rfl | rfl | ⟨hp, hpid⟩)
          · exact .inr ⟨.inl rfl, hid⟩
          · exact .inl rfl
          · exact .inr ⟨.inr hp, hpid⟩
        · rintro (rfl | ⟨rfl | hp, hpid⟩)
          · exact .inr (.inl rfl)
          · exact .inl rfl
          · exact .inr (.inr ⟨hp, hpid⟩)

theorem mem_of_insertNode {node p : Peer} {nodes : List Peer} (h : p ∈ insertNode node nodes) :
    p = node ∨ p ∈ nodes := by
  induction nodes with
  | nil => exact .inl (List.mem_singleton.1 h)
  | cons q others ih =>
    unfold insertNode at h
    split at h
    · exact (List.mem_cons.1 h).imp_right (List.mem_cons_of_mem q)
    · rcases List.mem_cons.1 h with rfl | h
      · exact .inr List.mem_cons_self
      · exact (ih h).imp_right (List.mem_cons_of_mem q)

/-- Recording a node brings at most this node into a table. -/
theorem mem_of_update {t : RoutingTable} {node p : Peer} {now : Stamp}
    (h : p ∈ (t.update node now).1.nodes) : p = node.touched now ∨ p ∈ t.nodes := by
  unfold update at h
  split at h
  · exact .inr h
  · dsimp only at h
    split at h
    · exact mem_of_insertNode h
    · split at h
      · exact mem_of_insertNode h
      · split at h
        · exact .inr h
        · split at h
          · exact (mem_of_insertNode h).imp_right List.mem_of_mem_filter
          · exact .inr h

/-- A table after a node was recorded: the node stands at the end of its bucket, and the entry with
    the id `gone` has left. -/
structure Records (t : RoutingTable) (node : Peer) (now : Stamp) (gone : NodeId)
    (after : RoutingTable) : Prop where
  localId : after.localId = t.localId
  bucketSize : after.bucketSize = t.bucketSize
  nodeTtl : after.nodeTtl = t.nodeTtl
  width : after.buckets.length = t.buckets.length
  foreign : node.id ≠ t.localId
  /-- The entry that left is the older one of the node, or was the first one and expired. -/
  room : gone = node.id ∨ ∃ p, (t.bucket (t.bucketIndex node.id)).head? = some p ∧
    p.id = gone ∧ p.isExpired now t.nodeTtl = true
  /-- The node is not there twice. -/
  fresh : gone = node.id ∨ node.id ∉ (t.bucket (t.bucketIndex node.id)).map (·.id)
  bucket : ∀ i, after.bucket i = if i = t.bucketIndex node.id
    then (t.bucket i).filter (·.id != gone) ++ [node] else t.bucket i
  bounded : ((t.bucket (t.bucketIndex node.id)).filter (·.id != gone)).length < t.bucketSize
  distinct : (after.nodes.map (·.id)).Nodup
  nodes : ∀ p, p ∈ after.nodes ↔ p = node ∨ (p ∈ t.nodes ∧ p.id ≠ gone ∧ p.id ≠ node.id)

theorem bucket_set {t : RoutingTable} (h : t.buckets.length = bucketCount) (id : NodeId)
    (nodes : List Peer) (i : Nat) :
    (t.buckets.set (t.bucketIndex id) nodes).getD i [] =
      if i = t.bucketIndex id then nodes else t.bucket i := by
  unfold bucket
  rw [List.getD_eq_getElem?_getD, List.getElem?_set, List.getD_eq_getElem?_getD]
  by_cases hi : t.bucketIndex id = i
  · subst hi
    rw [if_pos rfl, if_pos rfl, if_pos (h ▸ bucketIndex_lt t id)]
    rfl
  · rw [if_neg hi, if_neg fun e => hi e.symm]

theorem eraseP_eq_filter {nodes : List Peer} (h : (nodes.map (·.id)).Nodup) (id : NodeId) :
    nodes.eraseP (·.id == id) = nodes.filter (·.id != id) := by
  induction nodes with
  | nil => rfl
  | cons p rest ih =>
    rw [List.map_cons, List.nodup_cons] at h
    by_cases hid : p.id = id
    · have hrest : ∀ q ∈ rest, (q.id != id) = true := by
        intro q hq
        rw [bne_iff_ne, ← hid]
        exact fun e => h.1 (e ▸ List.mem_map_of_mem hq)
      rw [List.eraseP_cons_of_pos (by simpa using hid),
        List.filter_cons_of_neg (by simpa using hid), List.filter_eq_self.2 hrest]
    · rw [List.eraseP_cons_of_neg (by simpa using hid),
        List.filter_cons_of_pos (by simpa using hid), ih h.2]

/-- The node takes the place that an entry, or nobody, has left. -/
theorem Consistent.records {t : RoutingTable} (h : t.Consistent) (node : Peer) (now : Stamp)
    (gone : NodeId) (kept : List Peer) (hforeign : node.id ≠ t.localId)
    (hroom : gone = node.id ∨ ∃ p, (t.bucket (t.bucketIndex node.id)).head? = some p ∧
      p.id = gone ∧ p.isExpired now t.nodeTtl = true)
    (hfresh : gone = node.id ∨ node.id ∉ (t.bucket (t.bucketIndex node.id)).map (·.id))
    (hbounded : ((t.bucket (t.bucketIndex node.id)).filter (·.id != gone)).length < t.bucketSize)
    (hkept : (kept.map (·.id)).Nodup)
    (hmem : ∀ p, p.id ≠ node.id → (p ∈ kept ↔ p ∈ t.nodes ∧ p.id ≠ gone)) :
    t.Records node now gone { t with
      buckets := t.buckets.set (t.bucketIndex node.id)
        ((t.bucket (t.bucketIndex node.id)).filter (·.id != gone) ++ [node])
      nodes := insertNode node kept } where
  localId := rfl
  bucketSize := rfl
  nodeTtl := rfl
  width := List.length_set
  foreign := hforeign
  room := hroom
  fresh := hfresh
  bucket i := by
    have hset := bucket_set h.width node.id
      ((t.bucket (t.bucketIndex node.id)).filter (·.id != gone) ++ [node]) i
    refine hset.trans ?_
    by_cases hi : i = t.bucketIndex node.id
    · rw [if_pos hi, if_pos hi, hi]
    · rw [if_neg hi, if_neg hi]
  bounded := hbounded
  distinct := (mem_insertNode hkept).1
  nodes p := by
    rw [(mem_insertNode hkept).2]
    refine or_congr_right ?_
    constructor
    · rintro ⟨hp, hne⟩
      exact ⟨((hmem p hne).1 hp).1, ((hmem p hne).1 hp).2, hne⟩
    · rintro ⟨hp, hgone, hne⟩
      exact ⟨(hmem p hne).2 ⟨hp, hgone⟩, hne⟩

/-- Why a table does not record a node: it is its own, or it is new to a full bucket whose first
    node is not expired. -/
def Refuses (t : RoutingTable) (node : Peer) (now : Stamp) : Prop :=
  node.id = t.localId ∨ (node.id ∉ (t.bucket (t.bucketIndex node.id)).map (·.id) ∧
    t.bucketSize ≤ (t.bucket (t.bucketIndex node.id)).length ∧
    ∀ p, (t.bucket (t.bucketIndex node.id)).head? = some p → p.isExpired now t.nodeTtl = false)

/-- Recording a node leaves the table alone or puts the node into its bucket. -/
theorem update_cases {t : RoutingTable} (h : t.Consistent) (node : Peer) (now : Stamp) :
    (t.update node now = (t, false) ∧ t.Refuses node now) ∨
      ((t.update node now).2 = true ∧
        ∃ gone, t.Records (node.touched now) now gone (t.update node now).1) := by
  have honce := h.once (t.bucketIndex node.id)
  have hlong := h.bounded (t.bucketIndex node.id)
  unfold update
  by_cases hown : node.id = t.localId
  · rw [if_pos hown]
    exact .inl ⟨rfl, .inl hown⟩
  rw [if_neg hown]
  dsimp only
  rw [show (node.touched now).id = node.id from rfl]
  by_cases hknown : (t.bucket (t.bucketIndex node.id)).any (·.id == node.id) = true
  · -- The older entry of the node leaves.
    rw [if_pos hknown, eraseP_eq_filter honce]
    refine .inr ⟨rfl, node.id, h.records (node.touched now) now node.id t.nodes hown (.inl rfl)
      (.inl rfl) ?_ h.distinct fun p hne => ?_⟩
    · obtain ⟨p, hp, heq⟩ := List.any_eq_true.1 hknown
      refine Nat.lt_of_lt_of_le (List.length_filter_lt_length_iff_exists.2 ⟨p, hp, ?_⟩) hlong
      simpa using heq
    · exact (and_iff_left hne).symm
  rw [if_neg hknown]
  have hnew : ∀ p ∈ t.bucket (t.bucketIndex node.id), p.id ≠ node.id := by simpa using hknown
  have hfresh : node.id ∉ (t.bucket (t.bucketIndex node.id)).map (·.id) := by simpa using hknown
  by_cases hspace : (t.bucket (t.bucketIndex node.id)).length < t.bucketSize
  · -- There is room, and nobody leaves.
    rw [if_pos hspace]
    have hall : (t.bucket (t.bucketIndex node.id)).filter (·.id != node.id) =
        t.bucket (t.bucketIndex node.id) :=
      List.filter_eq_self.2 fun p hp => bne_iff_ne.2 (hnew p hp)
    have hrecords := h.records (node.touched now) now node.id t.nodes hown (.inl rfl) (.inl rfl) (by
        show ((t.bucket (t.bucketIndex node.id)).filter (·.id != node.id)).length < _
        rw [hall]
        exact hspace) h.distinct fun p hne => (and_iff_left hne).symm
    rw [show (node.touched now).id = node.id from rfl, hall] at hrecords
    exact .inr ⟨rfl, node.id, hrecords⟩
  rw [if_neg hspace]
  have hfull := Nat.le_of_not_lt hspace
  cases hhere : t.bucket (t.bucketIndex node.id) with
  | nil =>
    refine .inl ⟨rfl, .inr ⟨hfresh, hfull, fun p hp => ?_⟩⟩
    rw [hhere] at hp
    cases hp
  | cons oldest rest =>
    dsimp only
    by_cases hexpired : oldest.isExpired now t.nodeTtl = true
    · -- The oldest entry is expired and leaves.
      rw [if_pos hexpired]
      rw [hhere] at hlong honce
      have hne : ∀ p ∈ rest, (p.id != oldest.id) = true := by
        intro p hp
        rw [List.map_cons, List.nodup_cons] at honce
        exact bne_iff_ne.2 fun e => honce.1 (e ▸ List.mem_map_of_mem hp)
      have hrest : (t.bucket (t.bucketIndex node.id)).filter (·.id != oldest.id) = rest := by
        rw [hhere, List.filter_cons_of_neg (by simp), List.filter_eq_self.2 hne]
      have hrecords := h.records (node.touched now) now oldest.id (eraseNode oldest.id t.nodes) hown
        (.inr ⟨oldest, by
          show (t.bucket (t.bucketIndex node.id)).head? = some oldest
          rw [hhere]
          rfl, rfl, hexpired⟩) (.inr hfresh) (by
            show ((t.bucket (t.bucketIndex node.id)).filter (·.id != oldest.id)).length < _
            rw [hrest]
            exact hlong) (h.distinct.sublist (List.filter_sublist.map _))
        fun p _ => by simp [eraseNode]
      rw [show (node.touched now).id = node.id from rfl, hrest] at hrecords
      exact .inr ⟨rfl, oldest.id, hrecords⟩
    · -- It is not, and nobody is displaced.
      rw [if_neg hexpired]
      refine .inl ⟨rfl, .inr ⟨hfresh, hfull, fun p hp => ?_⟩⟩
      rw [hhere] at hp
      cases hp
      exact eq_false_of_ne_true hexpired

/-! ## 3. Consistent tables -/

theorem Records.bucketIndex {t after : RoutingTable} {node : Peer} {now : Stamp} {gone : NodeId}
    (h : t.Records node now gone after) (id : NodeId) :
    after.bucketIndex id = t.bucketIndex id := by
  unfold RoutingTable.bucketIndex
  rw [h.localId]

theorem Records.mem_bucket {t after : RoutingTable} {node : Peer} {now : Stamp} {gone : NodeId}
    (h : t.Records node now gone after) {i : Nat} {p : Peer} : p ∈ after.bucket i ↔
      (i = t.bucketIndex node.id ∧ p = node) ∨
        (p ∈ t.bucket i ∧ (i = t.bucketIndex node.id → p.id ≠ gone)) := by
  rw [h.bucket]
  by_cases hi : i = t.bucketIndex node.id
  · rw [if_pos hi, List.mem_append, List.mem_filter, List.mem_singleton, bne_iff_ne, or_comm]
    simp [hi]
  · rw [if_neg hi]
    simp [hi]

/-- A node that is not new to its bucket is the one that left. -/
theorem Records.ne_node {t after : RoutingTable} {node : Peer} {now : Stamp} {gone : NodeId}
    (h : t.Records node now gone after) {p : Peer} (hp : p ∈ t.bucket (t.bucketIndex node.id))
    (hgone : p.id ≠ gone) : p.id ≠ node.id := by
  rcases h.fresh with hnode | hnew
  · rwa [← hnode]
  · exact fun e => hnew (List.mem_map.2 ⟨p, hp, e⟩)

theorem Consistent.of_records {t after : RoutingTable} (h : t.Consistent) {node : Peer}
    {now : Stamp} {gone : NodeId} (hr : t.Records node now gone after) : after.Consistent := by
  constructor
  case width => exact hr.width.trans h.width
  case placed =>
    intro i p hp
    rw [hr.localId, hr.bucketIndex]
    rcases hr.mem_bucket.1 hp with ⟨hi, rfl⟩ | ⟨hp, -⟩
    · exact ⟨hr.foreign, hi.symm⟩
    · exact h.placed i p hp
  case bounded =>
    intro i
    rw [hr.bucket, hr.bucketSize]
    by_cases hi : i = t.bucketIndex node.id
    · subst hi
      rw [if_pos rfl, List.length_append, List.length_singleton]
      exact hr.bounded
    · rw [if_neg hi]
      exact h.bounded i
  case once =>
    intro i
    rw [hr.bucket]
    by_cases hi : i = t.bucketIndex node.id
    · subst hi
      rw [if_pos rfl, List.map_append, List.map_singleton, List.nodup_append]
      refine ⟨(h.once _).sublist (List.filter_sublist.map _), List.nodup_singleton _, ?_⟩
      intro id hid id' hid'
      obtain ⟨p, hp, rfl⟩ := List.mem_map.1 hid
      obtain ⟨hp, hgone⟩ := List.mem_filter.1 hp
      rw [List.mem_singleton.1 hid']
      exact hr.ne_node hp (bne_iff_ne.1 hgone)
    · rw [if_neg hi]
      exact h.once i
  case distinct => exact hr.distinct
  case same =>
    intro p
    rw [hr.nodes, hr.bucketIndex, hr.mem_bucket, h.same]
    constructor
    · rintro (rfl | ⟨hp, hgone, -⟩)
      · exact .inl ⟨rfl, rfl⟩
      · exact .inr ⟨hp, fun _ => hgone⟩
    · rintro (⟨-, rfl⟩ | ⟨hp, hgone⟩)
      · exact .inl rfl
      · refine .inr ⟨hp, ?_⟩
        by_cases hi : t.bucketIndex p.id = t.bucketIndex node.id
        · exact ⟨hgone hi, hr.ne_node (hi ▸ hp) (hgone hi)⟩
        · refine ⟨fun hid => ?_, fun hid => hi (hid ▸ rfl)⟩
          -- The entry that left was in the bucket of the node.
          rcases hr.room with hnode | ⟨q, hq, hqid, -⟩
          · exact hi (by rw [hid, hnode])
          · exact hi (by rw [hid, ← hqid, (h.placed _ q (List.mem_of_mem_head? hq)).2])

theorem Consistent.update {t : RoutingTable} (h : t.Consistent) (node : Peer) (now : Stamp) :
    (t.update node now).1.Consistent := by
  rcases update_cases h node now with ⟨hsame, -⟩ | ⟨-, gone, hr⟩
  · rw [hsame]
    exact h
  · exact h.of_records hr

theorem Consistent.updateAll {t : RoutingTable} (h : t.Consistent) (nodes : List Peer)
    (now : Stamp) : (t.updateAll nodes now).Consistent := by
  unfold RoutingTable.updateAll
  induction nodes generalizing t with
  | nil => exact h
  | cons node rest ih => exact ih (h.update node now)

theorem update_settings {t : RoutingTable} (h : t.Consistent) (node : Peer) (now : Stamp) :
    (t.update node now).1.localId = t.localId ∧
      (t.update node now).1.bucketSize = t.bucketSize := by
  rcases update_cases h node now with ⟨hsame, -⟩ | ⟨-, gone, hr⟩
  · rw [hsame]
    exact ⟨rfl, rfl⟩
  · exact ⟨hr.localId, hr.bucketSize⟩

theorem updateAll_settings {t : RoutingTable} (h : t.Consistent) (nodes : List Peer)
    (now : Stamp) : (t.updateAll nodes now).localId = t.localId ∧
      (t.updateAll nodes now).bucketSize = t.bucketSize := by
  unfold RoutingTable.updateAll
  induction nodes generalizing t with
  | nil => exact ⟨rfl, rfl⟩
  | cons node rest ih =>
    have hnode := update_settings h node now
    have hrest := ih (h.update node now)
    exact ⟨hrest.1.trans hnode.1, hrest.2.trans hnode.2⟩

/-! ## 4. Tables that cover a crowd -/

/-- No node of the table is expired. -/
def Fresh (t : RoutingTable) (now : Stamp) : Prop :=
  ∀ p ∈ t.nodes, p.isExpired now t.nodeTtl = false

/-- A table whose nodes live where it says, and whose buckets know all of a crowd that belong there,
    or as many of them as a bucket holds. -/
structure Covers (lives : NodeId → Address → Prop) (crowd : List NodeId) (t : RoutingTable) :
    Prop where
  consistent : t.Consistent
  entries : ∀ p ∈ t.nodes, lives p.id p.addr
  buckets : ∀ i, (∀ id ∈ crowd, id ≠ t.localId → t.bucketIndex id = i →
      id ∈ (t.bucket i).map (·.id)) ∨
    t.bucketSize ≤ ((t.bucket i).map (·.id)).countP fun id => crowd.contains id

/-- A bucket that knows as many of the crowd as it can hold is full, and knows nobody else. -/
theorem Consistent.crowd_of_full {crowd : List NodeId} {t : RoutingTable} (h : t.Consistent)
    {i : Nat} (hfull : t.bucketSize ≤
      ((t.bucket i).map (·.id)).countP fun id => crowd.contains id) :
    t.bucketSize ≤ (t.bucket i).length ∧ ∀ p ∈ t.bucket i, p.id ∈ crowd := by
  have hbound := h.bounded i
  have hcount := List.countP_le_length (p := fun id => crowd.contains id)
    (l := (t.bucket i).map (·.id))
  have hlen : ((t.bucket i).map (·.id)).length = (t.bucket i).length := List.length_map _
  have hall := List.countP_eq_length.1 (Nat.le_antisymm hcount (by omega))
  exact ⟨by omega, fun p hp => by simpa using hall p.id (List.mem_map_of_mem hp)⟩

/-- Whether each of a crowd is in its bucket, or the bucket is full of the crowd. -/
def knows (t : RoutingTable) (crowd : List NodeId) : Bool :=
  crowd.all fun id =>
    let ids := (t.bucket (t.bucketIndex id)).map (·.id)
    id == t.localId || ids.contains id ||
      decide (t.bucketSize ≤ ids.countP fun id => crowd.contains id)

theorem covers_of_knows {lives : NodeId → Address → Prop} {crowd : List NodeId} {t : RoutingTable}
    (h : t.Consistent) (hentries : ∀ p ∈ t.nodes, lives p.id p.addr)
    (hknows : t.knows crowd = true) : t.Covers lives crowd := by
  refine ⟨h, hentries, fun i => or_iff_not_imp_right.2 fun hfull id hid hne hi => ?_⟩
  subst hi
  have hone := List.all_eq_true.1 hknows id hid
  rw [Bool.or_eq_true, Bool.or_eq_true, beq_iff_eq, List.contains_iff_mem,
    decide_eq_true_eq] at hone
  exact (hone.resolve_right hfull).resolve_left hne

/-- While nobody is expired, nobody is displaced. -/
theorem Records.subset_ids {t after : RoutingTable} (h : t.Consistent) {node : Peer} {now : Stamp}
    {gone : NodeId} (hr : t.Records node now gone after) (hfresh : t.Fresh now) (i : Nat) :
    (t.bucket i).map (·.id) ⊆ (after.bucket i).map (·.id) := by
  intro id hid
  obtain ⟨p, hp, rfl⟩ := List.mem_map.1 hid
  have hgone : gone = node.id := by
    refine hr.room.resolve_right ?_
    rintro ⟨q, hq, -, hexpired⟩
    rw [hfresh q (h.mem_of_bucket (List.mem_of_mem_head? hq))] at hexpired
    cases hexpired
  by_cases hnode : i = t.bucketIndex node.id ∧ p.id = node.id
  · exact List.mem_map.2 ⟨node, hr.mem_bucket.2 (.inl ⟨hnode.1, rfl⟩), hnode.2.symm⟩
  · refine List.mem_map_of_mem (hr.mem_bucket.2 (.inr ⟨hp, fun hi hid => ?_⟩))
    exact hnode ⟨hi, hid.trans hgone⟩

/-- A table goes on covering a crowd when it records a node that lives where it says. -/
theorem Covers.update {lives : NodeId → Address → Prop} {crowd : List NodeId} {t : RoutingTable}
    (h : t.Covers lives crowd) {node : Peer} {now : Stamp} (hlives : lives node.id node.addr)
    (hfresh : t.Fresh now) : (t.update node now).1.Covers lives crowd := by
  rcases update_cases h.consistent node now with ⟨hsame, -⟩ | ⟨-, gone, hr⟩
  · rw [hsame]
    exact h
  constructor
  case consistent => exact h.consistent.of_records hr
  case entries =>
    intro p hp
    rcases (hr.nodes p).1 hp with rfl | ⟨hp, -⟩
    · exact hlives
    · exact h.entries p hp
  case buckets =>
    intro i
    have hids := hr.subset_ids h.consistent hfresh i
    rw [hr.localId, hr.bucketSize]
    refine (h.buckets i).imp (fun hall id hid hne hi => ?_) fun hfull => ?_
    · rw [hr.bucketIndex] at hi
      exact hids (hall id hid hne hi)
    · exact Nat.le_trans hfull ((List.subperm_of_subset (h.consistent.once i) hids).countP_le _)

/-- Who was heard from just now is not expired. -/
theorem Fresh.update {t : RoutingTable} (hc : t.Consistent) {now : Stamp} (h : t.Fresh now)
    (node : Peer) : (t.update node now).1.Fresh now := by
  rcases update_cases hc node now with ⟨hsame, -⟩ | ⟨-, gone, hr⟩
  · rw [hsame]
    exact h
  intro p hp
  rw [hr.nodeTtl]
  rcases (hr.nodes p).1 hp with rfl | ⟨hp, -⟩
  · have hage : ¬ now.sinceEpoch + (t.nodeTtl * nanosPerMilli : Nat) < now.sinceEpoch := by omega
    exact decide_eq_false hage
  · exact h p hp

theorem Fresh.updateAll {t : RoutingTable} (hc : t.Consistent) {now : Stamp} (h : t.Fresh now)
    (nodes : List Peer) : (t.updateAll nodes now).Fresh now := by
  unfold RoutingTable.updateAll
  induction nodes generalizing t with
  | nil => exact h
  | cons node rest ih => exact ih (hc.update node now) (h.update hc node)

theorem Covers.updateAll {lives : NodeId → Address → Prop} {crowd : List NodeId} {t : RoutingTable}
    (h : t.Covers lives crowd) {nodes : List Peer} {now : Stamp}
    (hlives : ∀ p ∈ nodes, lives p.id p.addr) (hfresh : t.Fresh now) :
    (t.updateAll nodes now).Covers lives crowd := by
  unfold RoutingTable.updateAll
  induction nodes generalizing t with
  | nil => exact h
  | cons node rest ih =>
    exact ih (h.update (hlives node List.mem_cons_self) hfresh)
      (fun p hp => hlives p (List.mem_cons_of_mem _ hp)) (hfresh.update h.consistent node)

end SignedRecords.RoutingTable
