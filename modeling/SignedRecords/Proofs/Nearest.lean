import Mathlib.Data.List.Perm.Subperm
import SignedRecords.Dht.Lookup
import SignedRecords.Dht.RoutingTable

/-!
# Nearest nodes

Ids are compared by their distance from a target, and no two ids have the same one. So the nearest
nodes of a list come in a strict order, and a node is one of the nearest `count` exactly when fewer
than `count` are nearer: its rank decides.

Main statements: `eq_nearestOf_of_ascending` and `mem_nearestOf`.
-/

namespace SignedRecords

open Lookup (distance)

/-! ## 1. Distances -/

theorem distance_inj {target a b : NodeId} : distance target a = distance target b ↔ a = b := by
  constructor
  · intro h
    have hxor : a ^^^ target = b ^^^ target := BitVec.eq_of_toNat_eq h
    have hback := congrArg (· ^^^ target) hxor
    simpa [BitVec.xor_assoc] using hback
  · rintro rfl
    rfl

/-- Nodes in strictly increasing distance from a target. -/
def Ascending (target : NodeId) (nodes : List Peer) : Prop :=
  nodes.Pairwise fun p q => distance target p.id < distance target q.id

instance (target : NodeId) (nodes : List Peer) : Decidable (Ascending target nodes) :=
  inferInstanceAs (Decidable (nodes.Pairwise _))

theorem Ascending.ids_nodup {target : NodeId} {nodes : List Peer} (h : Ascending target nodes) :
    (nodes.map (·.id)).Nodup := by
  rw [List.Nodup, List.pairwise_map]
  refine h.imp fun hlt heq => ?_
  rw [heq] at hlt
  exact Nat.lt_irrefl _ hlt

/-- A strictly ascending list is determined by what is in it. -/
theorem Ascending.eq_of_perm {target : NodeId} {a b : List Peer} (ha : Ascending target a)
    (hb : Ascending target b) (h : a.Perm b) : a = b := by
  have ha : a.Pairwise fun p q => distance target p.id < distance target q.id := ha
  refine h.eq_of_pairwise ?_ ha hb
  intro p q _ _ hpq hqp
  exact absurd hpq (Nat.lt_asymm hqp)

/-- Two ascending lists of the same ids have them in the same order. -/
theorem Ascending.ids_eq {target : NodeId} {a b : List Peer} (ha : Ascending target a)
    (hb : Ascending target b) (h : ∀ id, id ∈ a.map (·.id) ↔ id ∈ b.map (·.id)) :
    a.map (·.id) = b.map (·.id) := by
  have hperm := (List.perm_ext_iff_of_nodup ha.ids_nodup hb.ids_nodup).2 h
  have hids : (a.map (·.id)).Pairwise fun p q => distance target p < distance target q :=
    List.pairwise_map.2 ha
  refine hperm.eq_of_pairwise ?_ hids (List.pairwise_map.2 hb)
  intro p q _ _ hpq hqp
  exact absurd hpq (Nat.lt_asymm hqp)

/-! ## 2. Ranks -/

/-- The number of ids that are nearer to a target than an id. -/
def rank (target : NodeId) (ids : List NodeId) (id : NodeId) : Nat :=
  ids.countP fun other => distance target other < distance target id

/-- Among more ids the rank is no lower. -/
theorem rank_mono {target id : NodeId} {ids more : List NodeId} (hn : ids.Nodup)
    (h : ids ⊆ more) : rank target ids id ≤ rank target more id :=
  (List.subperm_of_subset hn h).countP_le _

/-- Ids that are all nearer count for the rank. -/
theorem length_le_rank {target id : NodeId} {ids more : List NodeId} (hn : ids.Nodup)
    (h : ids ⊆ more) (hnear : ∀ other ∈ ids, distance target other < distance target id) :
    ids.length ≤ rank target more id := by
  have hall : rank target ids id = ids.length := by
    rw [rank, List.countP_eq_length]
    exact fun other hmem => decide_eq_true (hnear other hmem)
  rw [← hall]
  exact rank_mono hn h

/-- The rank in an ascending list is the place. -/
theorem Ascending.mem_take {target : NodeId} {nodes : List Peer} (h : Ascending target nodes)
    {p : Peer} {count : Nat} :
    p ∈ nodes.take count ↔ p ∈ nodes ∧ rank target (nodes.map (·.id)) p.id < count := by
  by_cases hp : p ∈ nodes
  · obtain ⟨before, rest, rfl⟩ := List.append_of_mem hp
    obtain ⟨-, hrest, hcross⟩ := List.pairwise_append.1 h
    have hrank : rank target ((before ++ p :: rest).map (·.id)) p.id = before.length := by
      have hbefore : (before.map (·.id)).countP
          (fun other => distance target other < distance target p.id) = before.length := by
        rw [List.countP_map, List.countP_eq_length]
        exact fun q hq => decide_eq_true (hcross q hq p List.mem_cons_self)
      have hafter : ((p :: rest).map (·.id)).countP
          (fun other => distance target other < distance target p.id) = 0 := by
        rw [List.countP_map, List.countP_eq_zero]
        intro q hq
        rcases List.mem_cons.1 hq with rfl | hq
        · simp
        · have hlt := (List.pairwise_cons.1 hrest).1 q hq
          simp only [Function.comp_apply, decide_eq_true_eq]
          omega
      rw [rank, List.map_append, List.countP_append, hbefore, hafter, Nat.add_zero]
    have hnot : p ∉ before := by
      intro hmem
      exact Nat.lt_irrefl _ (hcross p hmem p List.mem_cons_self)
    rw [hrank, List.take_append, List.mem_append]
    constructor
    · rintro (hmem | hmem)
      · exact absurd (List.mem_of_mem_take hmem) hnot
      · refine ⟨hp, ?_⟩
        by_contra hle
        rw [Nat.sub_eq_zero_of_le (Nat.le_of_not_lt hle), List.take_zero] at hmem
        cases hmem
    · rintro ⟨-, hlt⟩
      obtain ⟨n, hn⟩ := Nat.exists_eq_succ_of_ne_zero (Nat.sub_ne_zero_of_lt hlt)
      rw [hn, List.take_succ_cons]
      exact .inr List.mem_cons_self
  · constructor
    · exact fun hmem => absurd (List.mem_of_mem_take hmem) hp
    · exact fun hmem => absurd hmem.1 hp

/-! ## 3. The nearest of some nodes -/

namespace RoutingTable

theorem ascending_mergeSort {target : NodeId} {nodes : List Peer}
    (h : (nodes.map (·.id)).Nodup) : Ascending target (nodes.mergeSort (notFarther target)) := by
  have htrans : ∀ a b c, notFarther target a b = true → notFarther target b c = true →
      notFarther target a c = true := by
    intro a b c hab hbc
    simp only [notFarther, decide_eq_true_eq] at *
    omega
  have htotal : ∀ a b, (notFarther target a b || notFarther target b a) = true := by
    intro a b
    simp only [notFarther, Bool.or_eq_true, decide_eq_true_eq]
    omega
  have hsorted := List.pairwise_mergeSort htrans htotal nodes
  have hids : ((nodes.mergeSort (notFarther target)).map (·.id)).Nodup :=
    ((List.mergeSort_perm nodes _).map _).nodup_iff.2 h
  refine (hsorted.and (List.pairwise_map.1 hids)).imp ?_
  rintro p q ⟨hle, hne⟩
  have hle : distance target p.id ≤ distance target q.id := of_decide_eq_true hle
  have hdiff : distance target p.id ≠ distance target q.id := fun e => hne (distance_inj.1 e)
  omega

theorem ascending_nearestOf {target : NodeId} {nodes : List Peer} (h : (nodes.map (·.id)).Nodup)
    (count : Nat) : Ascending target (nearestOf nodes target count) :=
  (ascending_mergeSort h).sublist (List.take_sublist _ _)

/-- The nearest nodes are the first ones of any ascending list of the same nodes. -/
theorem eq_nearestOf_of_ascending {target : NodeId} {nodes sorted : List Peer}
    (h : Ascending target sorted) (hperm : sorted.Perm nodes) (count : Nat) :
    sorted.take count = nearestOf nodes target count := by
  have hids : (nodes.map (·.id)).Nodup := (hperm.map _).nodup_iff.1 h.ids_nodup
  have hsort : sorted = nodes.mergeSort (notFarther target) :=
    h.eq_of_perm (ascending_mergeSort hids) (hperm.trans (List.mergeSort_perm nodes _).symm)
  rw [hsort]
  rfl

/-- A node is one of the nearest when its rank is low enough. -/
theorem mem_nearestOf {target : NodeId} {nodes : List Peer} (h : (nodes.map (·.id)).Nodup)
    {count : Nat} {p : Peer} : p ∈ nearestOf nodes target count ↔
      p ∈ nodes ∧ rank target (nodes.map (·.id)) p.id < count := by
  have hperm := List.mergeSort_perm nodes (notFarther target)
  have hrank : rank target ((nodes.mergeSort (notFarther target)).map (·.id)) p.id =
      rank target (nodes.map (·.id)) p.id := (hperm.map _).countP_eq _
  rw [nearestOf, (ascending_mergeSort h).mem_take, hperm.mem_iff, hrank]

theorem length_nearestOf (nodes : List Peer) (target : NodeId) (count : Nat) :
    (nearestOf nodes target count).length = min count nodes.length := by
  rw [nearestOf, List.length_take, List.length_mergeSort]

/-- What is not one of the nearest is farther than as many of them as there can be. -/
theorem nearer_of_not_mem_nearestOf {target : NodeId} {nodes : List Peer}
    (h : (nodes.map (·.id)).Nodup) {count : Nat} {p : Peer} (hp : p ∈ nodes)
    (hnot : p ∉ nearestOf nodes target count) :
    (nearestOf nodes target count).length = count ∧
      ∀ q ∈ nearestOf nodes target count, distance target q.id < distance target p.id := by
  have hmem : p ∈ nodes.mergeSort (notFarther target) := List.mem_mergeSort.2 hp
  have hasc : Ascending target (nodes.mergeSort (notFarther target)) := ascending_mergeSort h
  rw [← List.take_append_drop count (nodes.mergeSort _), List.mem_append] at hmem
  rw [← List.take_append_drop count (nodes.mergeSort _)] at hasc
  have hdrop := hmem.resolve_left hnot
  constructor
  · have hlong := List.length_pos_of_mem hdrop
    rw [List.length_drop] at hlong
    rw [nearestOf, List.length_take]
    omega
  · intro q hq
    exact (List.pairwise_append.1 hasc).2.2 q hq p hdrop

end RoutingTable

end SignedRecords
