import Mathlib.Data.Nat.Bitwise
import SignedRecords.Proofs.Prefixes
import SignedRecords.Proofs.RoutingTables

/-!
# Distances as octets

The distance of two ids is the exclusive or of their octets, one by one, and distances are compared
octet by octet, the most significant one first. That is the order of the numbers which the octets
write, and in it an id that shares more leading bits with a target is nearer than one that shares
fewer.

So the nearest nodes of a table are determined by the nodes that are in it: they are the only ones
that come in increasing distance and are nearer than all others.

Main statements: `octetDistance_lt_iff`, `octetDistance_lt_of_shared` and `nearest_exact`.
-/

namespace SignedRecords

/-! ## 1. Octets of numbers -/

namespace Bytes

theorem littleEndian_xor (w m n : Nat) :
    littleEndian w (m ^^^ n) = List.zipWith (· ^^^ ·) (littleEndian w m) (littleEndian w n) := by
  induction w generalizing m n with
  | zero => rfl
  | succ w ih =>
    have hlow : (m ^^^ n) % 2 ^ 8 = m % 2 ^ 8 ^^^ n % 2 ^ 8 := Nat.xor_mod_two_pow
    have hhigh : (m ^^^ n) / 2 ^ 8 = m / 2 ^ 8 ^^^ n / 2 ^ 8 := Nat.xor_div_two_pow
    rw [show (2 ^ 8 : Nat) = 256 from rfl] at hlow hhigh
    rw [littleEndian, littleEndian, littleEndian, hlow, hhigh, ih, UInt8.ofNat_xor]
    rfl

/-- The octets of an exclusive or are those of the two numbers, taken one by one. -/
theorem bigEndian_xor (w m n : Nat) :
    bigEndian w (m ^^^ n) = List.zipWith (· ^^^ ·) (bigEndian w m) (bigEndian w n) := by
  unfold bigEndian
  rw [littleEndian_xor, List.reverse_zipWith]
  rw [length_littleEndian, length_littleEndian]

theorem ofLittleEndian_concat (bs : Bytes) (b : UInt8) :
    ofLittleEndian (bs ++ [b]) = ofLittleEndian bs + span bs.length * b.toNat := by
  induction bs with
  | nil => simp [ofLittleEndian, span]
  | cons first rest ih =>
    rw [List.cons_append, ofLittleEndian, ih, ofLittleEndian, List.length_cons, span,
      Nat.mul_add, Nat.mul_assoc, Nat.add_assoc]

theorem ofBigEndian_cons (b : UInt8) (bs : Bytes) :
    ofBigEndian (b :: bs) = ofBigEndian bs + span bs.length * b.toNat := by
  unfold ofBigEndian
  rw [List.reverse_cons, ofLittleEndian_concat, List.length_reverse]

/-- Octet strings of one length are compared as the numbers that they write. -/
theorem lt_iff_ofBigEndian_lt {a b : Bytes} (h : a.length = b.length) :
    a < b ↔ ofBigEndian a < ofBigEndian b := by
  induction a generalizing b with
  | nil =>
    obtain rfl := List.length_eq_zero_iff.1 h.symm
    exact iff_of_false (List.not_lt_nil _) (Nat.lt_irrefl _)
  | cons x xs ih =>
    cases b with
    | nil => cases h
    | cons y ys =>
      have hlen : xs.length = ys.length := Nat.succ.inj h
      have hx := ofBigEndian_lt xs
      have hy := ofBigEndian_lt ys
      rw [← hlen] at hy
      rw [List.cons_lt_cons_iff, ih hlen, ofBigEndian_cons, ofBigEndian_cons, ← hlen,
        UInt8.lt_iff_toNat_lt, ← UInt8.toNat_inj]
      generalize span xs.length = width at hx hy ⊢
      -- What follows the first octet is less than one step of it.
      constructor
      · rintro (hlt | ⟨heq, hlt⟩)
        · have hstep := Nat.mul_le_mul_left width (Nat.succ_le_of_lt hlt)
          rw [Nat.mul_succ] at hstep
          omega
        · rw [heq]
          omega
      · intro hlt
        rcases Nat.lt_trichotomy x.toNat y.toNat with hxy | hxy | hxy
        · exact .inl hxy
        · rw [hxy] at hlt
          exact .inr ⟨hxy, by omega⟩
        · have hstep := Nat.mul_le_mul_left width (Nat.succ_le_of_lt hxy)
          rw [Nat.mul_succ] at hstep
          omega

end Bytes

/-! ## 2. The order of distances -/

namespace NodeId

/-- The distance of two ids, octet by octet. -/
def octetDistance (a b : NodeId) : Bytes :=
  List.zipWith (· ^^^ ·) a.octets.toList b.octets.toList

theorem octetDistance_eq (a b : NodeId) :
    a.octetDistance b = Bytes.bigEndian 20 (distance a b).toNat := by
  unfold distance
  rw [BitVec.toNat_xor]
  exact (Bytes.bigEndian_xor 20 a.toNat b.toNat).symm

theorem length_octetDistance (a b : NodeId) : (a.octetDistance b).length = 20 := by
  rw [octetDistance_eq, Bytes.length_bigEndian]

theorem ofBigEndian_octetDistance (a target : NodeId) :
    Bytes.ofBigEndian (a.octetDistance target) = Lookup.distance target a := by
  have hspan : Bytes.span 20 = 2 ^ 160 := by decide
  rw [octetDistance_eq, Bytes.ofBigEndian_bigEndian, hspan, Nat.mod_eq_of_lt (BitVec.isLt _),
    Lookup.distance]

/-- The order of distances is that of their octets. -/
theorem octetDistance_lt_iff {target a b : NodeId} :
    a.octetDistance target < b.octetDistance target ↔
      Lookup.distance target a < Lookup.distance target b := by
  rw [Bytes.lt_iff_ofBigEndian_lt, ofBigEndian_octetDistance, ofBigEndian_octetDistance]
  rw [length_octetDistance, length_octetDistance]

theorem octetDistance_inj {target a b : NodeId} :
    a.octetDistance target = b.octetDistance target ↔ a = b := by
  refine ⟨fun h => ?_, fun h => h ▸ rfl⟩
  have hnumber := congrArg Bytes.ofBigEndian h
  rw [ofBigEndian_octetDistance, ofBigEndian_octetDistance] at hnumber
  exact distance_inj.1 hnumber

/-- Who shares more leading bits with the target is nearer. -/
theorem octetDistance_lt_of_sharedBits {target a b : NodeId}
    (h : target.sharedBits b < target.sharedBits a) :
    a.octetDistance target < b.octetDistance target := by
  have hle := sharedBits_le target a
  have hi : target.sharedBits b < 160 := by omega
  have hnear := high_eq_iff_lt.1 ((lt_sharedBits hi).1 h)
  have hfar := mt (lt_sharedBits hi).2 (Nat.lt_irrefl _)
  rw [high_eq_iff_lt] at hfar
  rw [octetDistance_lt_iff]
  unfold Lookup.distance distance
  rw [BitVec.xor_comm a, BitVec.xor_comm b]
  omega

/-- The same, said of the bits: one id goes along with the target where the other one has already
    left it. -/
theorem octetDistance_lt_of_shared {target a b : NodeId} {i : Nat}
    (ha : ∀ j < i, a.getMsbD j = target.getMsbD j)
    (hb : ∃ j < i, b.getMsbD j ≠ target.getMsbD j) :
    a.octetDistance target < b.octetDistance target := by
  obtain ⟨j, hj, hdiffer⟩ := hb
  have hne : target ≠ b := fun e => hdiffer (e ▸ rfl)
  have hleft : target.sharedBits b < i := by
    by_contra hle
    exact hdiffer ((partAt_sharedBits hne).agree j (by omega)).symm
  apply octetDistance_lt_of_sharedBits
  by_cases heq : target = a
  · subst heq
    exact (lt_sharedBits (sharedBits_lt hne)).2 rfl
  · have halong : i ≤ target.sharedBits a := by
      by_contra hlt
      exact (partAt_sharedBits heq).differ (ha _ (by omega)).symm
    omega

end NodeId

/-! ## 3. The nearest nodes -/

namespace RoutingTable

/-- Who is in a bucket of more shared bits is nearer to the table's own id. -/
theorem octetDistance_lt_of_bucketIndex {t : RoutingTable} {a b : NodeId}
    (h : t.bucketIndex b < t.bucketIndex a) :
    a.octetDistance t.localId < b.octetDistance t.localId := by
  apply NodeId.octetDistance_lt_of_sharedBits
  unfold bucketIndex at h
  omega

/-- Nodes that are the nearest ones of a table to a target: as many as were asked for if there are
    so many, in increasing distance, and all others are farther. -/
structure IsNearest (nodes : List Peer) (target : NodeId) (count : Nat) (found : List Peer) :
    Prop where
  length : found.length = min count nodes.length
  ascending : found.Pairwise fun p q => p.id.octetDistance target < q.id.octetDistance target
  farther : ∃ others, (found ++ others).Perm nodes ∧
    ∀ p ∈ found, ∀ q ∈ others, p.id.octetDistance target < q.id.octetDistance target

theorem ascending_iff_octetDistance {target : NodeId} {nodes : List Peer} :
    Ascending target nodes ↔
      nodes.Pairwise fun p q => p.id.octetDistance target < q.id.octetDistance target :=
  List.Pairwise.iff fun _ _ => NodeId.octetDistance_lt_iff.symm

theorem isNearest_nearestOf {nodes : List Peer} (h : (nodes.map (·.id)).Nodup) (target : NodeId)
    (count : Nat) : IsNearest nodes target count (nearestOf nodes target count) := by
  have hsorted : Ascending target (nodes.mergeSort (notFarther target)) := ascending_mergeSort h
  rw [← List.take_append_drop count (nodes.mergeSort _), ascending_iff_octetDistance,
    List.pairwise_append] at hsorted
  obtain ⟨hfound, -, hcross⟩ := hsorted
  refine ⟨length_nearestOf nodes target count, hfound,
    (nodes.mergeSort (notFarther target)).drop count, ?_, hcross⟩
  rw [nearestOf, List.take_append_drop]
  exact List.mergeSort_perm nodes _

theorem IsNearest.of_perm {nodes order found : List Peer} {target : NodeId} {count : Nat}
    (h : IsNearest order target count found) (horder : order.Perm nodes) :
    IsNearest nodes target count found := by
  obtain ⟨others, hperm, hfarther⟩ := h.farther
  exact ⟨horder.length_eq ▸ h.length, h.ascending, others, hperm.trans horder, hfarther⟩

/-- There is only one way to be nearest. -/
theorem IsNearest.eq {nodes found : List Peer} {target : NodeId} {count : Nat}
    (h : IsNearest nodes target count found) (hids : (nodes.map (·.id)).Nodup) :
    found = nearestOf nodes target count := by
  obtain ⟨others, hperm, hfarther⟩ := h.farther
  have hothers : (others.map (·.id)).Nodup :=
    ((hperm.map _).nodup_iff.2 hids).sublist ((List.sublist_append_right found others).map _)
  have hrest := List.mergeSort_perm others (notFarther target)
  have hsorted : Ascending target (found ++ others.mergeSort (notFarther target)) := by
    rw [ascending_iff_octetDistance, List.pairwise_append]
    refine ⟨h.ascending, ascending_iff_octetDistance.1 (ascending_mergeSort hothers), ?_⟩
    exact fun p hp q hq => hfarther p hp q (List.mem_mergeSort.1 hq)
  have hfirst : (found ++ others.mergeSort (notFarther target)).take count = found := by
    have hlen := h.length
    have hall := hperm.length_eq
    rw [List.length_append] at hall
    by_cases hle : count ≤ nodes.length
    · exact List.take_left' (by omega)
    · -- More were asked for than there are, and nobody is left over.
      have hnone : others = [] := List.length_eq_zero_iff.1 (by omega)
      subst hnone
      rw [List.mergeSort_nil, List.append_nil]
      exact List.take_of_length_le (by omega)
  rw [← hfirst]
  exact eq_nearestOf_of_ascending hsorted ((hrest.append_left found).trans hperm) count

/-- The table with its map listed in another order. -/
def listedAs (t : RoutingTable) (order : List Peer) : RoutingTable := { t with nodes := order }

/-- Of nodes with different ids, in whatever order the map lists them, the nearest ones are handed
    over: as many as were asked for if there are so many, in increasing distance, and everybody
    else is farther than all of them. No other list has these properties. Distances from a target
    tell ids apart, and an id that goes along with the target for more bits is nearer than one that
    has left it. So an id of a later bucket, which shares more bits with the table's own id, is
    nearer to that than one of an earlier bucket. -/
theorem nearest_exact (t : RoutingTable) (order : List Peer) (target : NodeId) (count : Nat)
    (hids : (t.nodes.map (·.id)).Nodup) (horder : order.Perm t.nodes) :
    IsNearest t.nodes target count ((t.listedAs order).nearest target count) ∧
      (t.listedAs order).nearest target count = t.nearest target count ∧
      (∀ found, IsNearest t.nodes target count found → found = t.nearest target count) ∧
      (∀ a b : NodeId, a.octetDistance target = b.octetDistance target → a = b) ∧
      (∀ (a b : NodeId) (i : Nat), (∀ j < i, a.getMsbD j = target.getMsbD j) →
        (∃ j < i, b.getMsbD j ≠ target.getMsbD j) →
        a.octetDistance target < b.octetDistance target) ∧
      (∀ id, id ≠ t.localId → t.localId.PartAt id (t.bucketIndex id)) ∧
      ∀ a b : NodeId, t.bucketIndex b < t.bucketIndex a →
        a.octetDistance t.localId < b.octetDistance t.localId := by
  have horderIds : (order.map (·.id)).Nodup := (horder.map _).nodup_iff.2 hids
  have hnearest := (isNearest_nearestOf horderIds target count).of_perm horder
  have hsame : (t.listedAs order).nearest target count = t.nearest target count :=
    hnearest.eq hids
  exact ⟨hnearest, hsame, fun found hfound => hfound.eq hids,
    fun a b hdistance => NodeId.octetDistance_inj.1 hdistance,
    fun a b i ha hb => NodeId.octetDistance_lt_of_shared ha hb,
    fun _ hforeign => partAt_bucketIndex hforeign,
    fun a b hbucket => octetDistance_lt_of_bucketIndex hbucket⟩

/-- Three nodes. From 4 the second one is the farthest because of its higher octet; by the lowest
    octet alone it would be nearer than the first. -/
def nearbyTable : RoutingTable :=
  let peerAt (id : Nat) : Peer := ⟨BitVec.ofNat 160 id, default, default⟩
  (empty 0 8 900000).updateAll [peerAt 3, peerAt 256, peerAt 5] default

theorem nearest_exact_of_reversed :
    let found : List Peer := [⟨5, default, default⟩, ⟨3, default, default⟩]
    (nearbyTable.nodes.map (·.id)).Nodup ∧ nearbyTable.nodes.reverse.Perm nearbyTable.nodes ∧
      IsNearest nearbyTable.nodes 4 2 found ∧
      (nearbyTable.listedAs nearbyTable.nodes.reverse).nearest 4 2 = found := by
  intro found
  have hids : (nearbyTable.nodes.map (·.id)).Nodup := by decide +kernel
  have horder := List.reverse_perm nearbyTable.nodes
  have hfound : IsNearest nearbyTable.nodes 4 2 found :=
    ⟨by decide +kernel, by decide +kernel, [⟨256, default, default⟩], by decide +kernel,
      by decide +kernel⟩
  obtain ⟨-, hsame, hunique, -⟩ :=
    nearest_exact nearbyTable nearbyTable.nodes.reverse 4 2 hids horder
  exact ⟨hids, horder, hfound, hsame.trans (hunique found hfound).symm⟩

end RoutingTable

end SignedRecords
