import SignedRecords.Proofs.Prefixes
import SignedRecords.Proofs.RoutingTables

/-!
# Where lookups converge

A lookup is at its end when the nearest nodes that it knows have all told it what their tables know.
Let these tables cover a crowd, and let everybody else that they name be too far to matter. Then the
nearest nodes that the lookup knows are the nearest of the crowd.

Suppose that a near node `u` of the crowd is missing. The nodes of the lookup share some leading
bits with `u`, and the table of the one that shares the most has a bucket for the range of `u`. It
holds `u` or is full of other nodes of that range, and all of these share one bit more with `u`. If
one of them was named, it is a better node than the best, unless `k` nearer ones keep it out; if
none was named, `k` nearer ones were. In both cases these `k` lie outside the range and are nearer
than all of it, so they are nearer than `u`: too many for a near node.

Main statement: `Told.ids_closest`.
-/

namespace SignedRecords

open Lookup (distance)
open RoutingTable (nearestOf)

/-! ## 1. Who is near -/

/-- An id that pushes no node out of the `k` nearest of a crowd: one of the crowd, one that has at
    least `k` of the crowd before it, or the asking node when the crowd is smaller than `k`. -/
def Harmless (target : NodeId) (k : Nat) (crowd : List NodeId) (localId id : NodeId) : Prop :=
  id ∈ crowd ∨ k ≤ rank target crowd id ∨ (id = localId ∧ crowd.length < k)

theorem rank_le_rank {target a b : NodeId} {ids : List NodeId}
    (h : distance target a ≤ distance target b) : rank target ids a ≤ rank target ids b := by
  apply List.countP_mono_left
  intro id _ hid
  rw [decide_eq_true_eq] at hid ⊢
  exact Nat.lt_of_lt_of_le hid h

/-- Fewer than `k` harmless ids are nearer than one of the `k` nearest of the crowd. -/
theorem length_lt_of_nearer {target u localId : NodeId} {k : Nat} {crowd ids : List NodeId}
    (hn : ids.Nodup) (hids : ∀ id ∈ ids, Harmless target k crowd localId id) (hu : u ∈ crowd)
    (hrank : rank target crowd u < k)
    (hnear : ∀ id ∈ ids, distance target id < distance target u) : ids.length < k := by
  have hcases : ∀ id ∈ ids, id ∈ crowd ∨ (id = localId ∧ crowd.length < k) := by
    intro id hid
    rcases hids id hid with hmem | hfar | hlocal
    · exact .inl hmem
    · have hle : rank target crowd id ≤ rank target crowd u :=
        rank_le_rank (Nat.le_of_lt (hnear id hid))
      omega
    · exact .inr hlocal
  by_cases hsmall : crowd.length < k
  · -- All fit into the crowd and the asking node, where `u` itself takes one place.
    have hnot : u ∉ ids := fun hmem => Nat.lt_irrefl _ (hnear u hmem)
    have hsub : u :: ids ⊆ localId :: crowd := by
      intro id hid
      rcases List.mem_cons.1 hid with rfl | hid
      · exact List.mem_cons_of_mem _ hu
      · rcases hcases id hid with hmem | ⟨rfl, -⟩
        · exact List.mem_cons_of_mem _ hmem
        · exact List.mem_cons_self
    have hlen := (List.subperm_of_subset (List.nodup_cons.2 ⟨hnot, hn⟩) hsub).length_le
    rw [List.length_cons, List.length_cons] at hlen
    omega
  · have hsub : ids ⊆ crowd := fun id hid => (hcases id hid).resolve_right fun h => hsmall h.2
    exact Nat.lt_of_le_of_lt (length_le_rank hn hsub hnear) hrank

/-- A list of harmless nodes does not leave out a node that is at most as far as a near one. -/
theorem mem_nearestOf_of_near {target u localId : NodeId} {k : Nat} {crowd : List NodeId}
    {nodes : List Peer} (hn : (nodes.map (·.id)).Nodup)
    (hnodes : ∀ p ∈ nodes, Harmless target k crowd localId p.id) (hu : u ∈ crowd)
    (hrank : rank target crowd u < k) {p : Peer} (hp : p ∈ nodes)
    (hfar : ∀ q ∈ nearestOf nodes target k, distance target q.id < distance target p.id →
      distance target q.id < distance target u) : p ∈ nearestOf nodes target k := by
  by_contra hnot
  obtain ⟨hlen, hnear⟩ := RoutingTable.nearer_of_not_mem_nearestOf hn hp hnot
  have hharmless : ∀ id ∈ (nearestOf nodes target k).map (·.id),
      Harmless target k crowd localId id := by
    intro id hid
    obtain ⟨q, hq, rfl⟩ := List.mem_map.1 hid
    exact hnodes q ((RoutingTable.mem_nearestOf hn).1 hq).1
  have hall : ∀ id ∈ (nearestOf nodes target k).map (·.id),
      distance target id < distance target u := by
    intro id hid
    obtain ⟨q, hq, rfl⟩ := List.mem_map.1 hid
    exact hfar q hq (hnear q hq)
  have hlt := length_lt_of_nearer (RoutingTable.ascending_nearestOf hn k).ids_nodup hharmless hu
    hrank hall
  rw [List.length_map, hlen] at hlt
  exact Nat.lt_irrefl _ hlt

/-! ## 2. What the nearest nodes have told -/

/-- Nodes that a lookup knows, of which the nearest `k` have told what their tables know. -/
structure Told (lives : NodeId → Address → Prop) (crowd : List NodeId) (k : Nat)
    (localId target : NodeId) (names : List Peer) : Prop where
  distinct : (names.map (·.id)).Nodup
  housed : ∀ p ∈ names, lives p.id p.addr
  foreign : ∀ p ∈ names, p.id ≠ localId
  told : ∀ c ∈ nearestOf names target k, ∃ t : RoutingTable, t.localId = c.id ∧
    t.bucketSize = k ∧ t.Covers lives crowd ∧
      ∀ p ∈ t.nearest target k, p.id ≠ localId → p.id ∈ names.map (·.id)

section

variable {lives : NodeId → Address → Prop} {crowd : List NodeId} {k : Nat}
  {localId target : NodeId} {names : List Peer}
  (h : Told lives crowd k localId target names)
  (hlives : ∀ id addr, lives id addr → Harmless target k crowd localId id)
  (hlocal : localId ∉ crowd)

include h hlives

/-- A near node of the crowd that was named is one of the nearest. -/
theorem Told.mem_of_named {u : NodeId} (hu : u ∈ crowd) (hrank : rank target crowd u < k)
    (hnamed : u ∈ names.map (·.id)) : u ∈ (nearestOf names target k).map (·.id) := by
  obtain ⟨p, hp, rfl⟩ := List.mem_map.1 hnamed
  exact List.mem_map_of_mem (mem_nearestOf_of_near h.distinct
    (fun q hq => hlives _ _ (h.housed q hq)) hu hrank hp fun q _ hlt => hlt)

include hlocal

/-- As long as a near node is missing, another of the nearest shares more bits with it. -/
theorem Told.exists_nearer {u : NodeId} (hu : u ∈ crowd) (hrank : rank target crowd u < k)
    (hmiss : u ∉ (nearestOf names target k).map (·.id)) {c : Peer}
    (hc : c ∈ nearestOf names target k) :
    ∃ d ∈ nearestOf names target k, c.id.sharedBits u < d.id.sharedBits u := by
  by_contra hbest
  have hbest : ∀ d ∈ nearestOf names target k, d.id.sharedBits u ≤ c.id.sharedBits u := by
    intro d hd
    by_contra hlt
    exact hbest ⟨d, hd, Nat.lt_of_not_le hlt⟩
  obtain ⟨t, hself, hsize, hcovers, htold⟩ := h.told c hc
  have hcons := hcovers.consistent
  have hharmless : ∀ p ∈ t.nodes, Harmless target k crowd localId p.id :=
    fun p hp => hlives _ _ (hcovers.entries p hp)
  have hnamed : ∀ p ∈ t.nearest target k, p.id ∈ crowd → p.id ∈ names.map (·.id) :=
    fun p hp hmem => htold p hp fun e => hlocal (e ▸ hmem)
  have hne : u ≠ t.localId := by
    rw [hself]
    exact fun e => hmiss (e ▸ List.mem_map_of_mem hc)
  have hindex : ∀ p ∈ t.nodes, t.bucketIndex p.id = c.id.sharedBits p.id := by
    intro p hp
    rw [RoutingTable.bucketIndex_of_ne (hcons.ne_localId hp), hself]
  have hrange : t.bucketIndex u = c.id.sharedBits u := by
    rw [RoutingTable.bucketIndex_of_ne hne, hself]
  rcases hcovers.buckets (t.bucketIndex u) with hall | hfull
  · -- The table knows `u`, and names it.
    obtain ⟨p, hp, rfl⟩ := List.mem_map.1 (hall u hu hne rfl)
    have hnear := mem_nearestOf_of_near hcons.distinct hharmless hu hrank (hcons.mem_of_bucket hp)
      fun q _ hlt => hlt
    exact hmiss (h.mem_of_named hlives hu hrank (hnamed p hnear hu))
  -- The bucket is full of the crowd, and all of it shares more bits with `u`.
  obtain ⟨hlong, hfullOf⟩ := hcons.crowd_of_full hfull
  have hdeep : ∀ p ∈ t.bucket (t.bucketIndex u), c.id.sharedBits u < p.id.sharedBits u := by
    intro p hp
    refine NodeId.sharedBits_lt_of_eq (hself ▸ fun e => hne e.symm) ?_
    rw [← hindex p (hcons.mem_of_bucket hp), (hcons.placed _ p hp).2, hrange]
  have hsome : 0 < (t.bucket (t.bucketIndex u)).length := by omega
  by_cases hany : ∃ w ∈ t.bucket (t.bucketIndex u), w ∈ t.nearest target k
  · -- One of them was named, and would be the best of the nearest.
    obtain ⟨w, hw, hwnear⟩ := hany
    obtain ⟨q, hq, hqid⟩ := List.mem_map.1 (hnamed w hwnear (hfullOf w hw))
    have hqdeep : c.id.sharedBits u < q.id.sharedBits u := hqid ▸ hdeep w hw
    refine absurd (hbest q (mem_nearestOf_of_near h.distinct
      (fun p hp => hlives _ _ (h.housed p hp)) hu hrank hq fun d hd hlt => ?_)) (by omega)
    exact (NodeId.distance_lt_iff_of_apart (Nat.lt_of_le_of_lt (hbest d hd) hqdeep)).2 hlt
  · -- None was named, so all that were lie outside the range.
    obtain ⟨w, hw⟩ := List.exists_mem_of_length_pos hsome
    refine hany ⟨w, hw, mem_nearestOf_of_near hcons.distinct hharmless hu hrank
      (hcons.mem_of_bucket hw) fun q hq hlt => ?_⟩
    have hqnodes : q ∈ t.nodes := ((RoutingTable.mem_nearestOf hcons.distinct).1 hq).1
    have hout : q.id.sharedBits u ≤ c.id.sharedBits u := by
      by_contra hin
      have heq := NodeId.sharedBits_eq_of_lt (Nat.lt_of_not_le hin)
      rw [← hindex q hqnodes, ← hrange] at heq
      refine hany ⟨q, ?_, hq⟩
      rw [← heq]
      exact (hcons.same q).1 hqnodes
    exact (NodeId.distance_lt_iff_of_apart (Nat.lt_of_le_of_lt hout (hdeep w hw))).2 hlt

/-- All near nodes of the crowd are among the nearest. -/
theorem Told.mem_of_near (hsome : names ≠ []) {u : NodeId} (hu : u ∈ crowd)
    (hrank : rank target crowd u < k) : u ∈ (nearestOf names target k).map (·.id) := by
  by_contra hmiss
  have hdeep : ∀ n, ∃ c ∈ nearestOf names target k, n ≤ c.id.sharedBits u := by
    intro n
    induction n with
    | zero =>
      have hlen := RoutingTable.length_nearestOf names target k
      have hpos := List.length_pos_iff.2 hsome
      obtain ⟨c, hc⟩ := List.exists_mem_of_length_pos
        (show 0 < (nearestOf names target k).length by omega)
      exact ⟨c, hc, Nat.zero_le _⟩
    | succ n ih =>
      obtain ⟨c, hc, hle⟩ := ih
      obtain ⟨d, hd, hlt⟩ := h.exists_nearer hlives hlocal hu hrank hmiss hc
      exact ⟨d, hd, by omega⟩
  obtain ⟨c, -, hle⟩ := hdeep 161
  have hbound := NodeId.sharedBits_le c.id u
  omega

end

/-- The nearest nodes of the lookup are the nearest of the crowd. -/
theorem Told.ids_closest {lives : NodeId → Address → Prop} {crowd : List Peer} {k : Nat}
    {localId target : NodeId} {names : List Peer}
    (h : Told lives (crowd.map (·.id)) k localId target names)
    (hlives : ∀ id addr, lives id addr → Harmless target k (crowd.map (·.id)) localId id)
    (hlocal : localId ∉ crowd.map (·.id)) (hcrowd : (crowd.map (·.id)).Nodup)
    (hsome : names ≠ []) :
    (nearestOf names target k).map (·.id) = (nearestOf crowd target k).map (·.id) := by
  have hcount : Ascending target (nearestOf crowd target k) :=
    RoutingTable.ascending_nearestOf hcrowd k
  have hclosest : Ascending target (nearestOf names target k) :=
    RoutingTable.ascending_nearestOf h.distinct k
  have hall : (nearestOf crowd target k).map (·.id) ⊆ (nearestOf names target k).map (·.id) := by
    intro id hid
    obtain ⟨p, hp, rfl⟩ := List.mem_map.1 hid
    obtain ⟨hmem, hrank⟩ := (RoutingTable.mem_nearestOf hcrowd).1 hp
    exact h.mem_of_near hlives hlocal hsome (List.mem_map_of_mem hmem) hrank
  have hlong := RoutingTable.length_nearestOf names target k
  have hwide := RoutingTable.length_nearestOf crowd target k
  refine hclosest.ids_eq hcount fun id => ⟨fun hid => ?_, fun hid => hall hid⟩
  by_contra hnot
  -- There is no place left for another node, and in a small crowd no other node is named.
  have hfits := (List.subperm_of_subset (List.nodup_cons.2 ⟨hnot, hcount.ids_nodup⟩)
    (List.cons_subset.2 ⟨hid, hall⟩)).length_le
  rw [List.length_cons, List.length_map, List.length_map] at hfits
  have hsmall : crowd.length < k := by omega
  obtain ⟨p, hp, rfl⟩ := List.mem_map.1 hid
  have hpnames := ((RoutingTable.mem_nearestOf h.distinct).1 hp).1
  have hbound : rank target (crowd.map (·.id)) p.id ≤ crowd.length := by
    have hle := List.countP_le_length
      (p := fun other => decide (distance target other < distance target p.id))
      (l := crowd.map (·.id))
    rwa [List.length_map] at hle
  rcases hlives _ _ (h.housed p hpnames) with hmem | hfar | ⟨hself, -⟩
  · obtain ⟨q, hq, hqid⟩ := List.mem_map.1 hmem
    refine hnot (List.mem_map.2 ⟨q, (RoutingTable.mem_nearestOf hcrowd).2 ⟨hq, ?_⟩, hqid⟩)
    rw [hqid]
    omega
  · omega
  · exact h.foreign p hpnames hself

end SignedRecords
