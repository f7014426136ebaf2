import Mathlib.Data.Nat.Bitwise
import SignedRecords.Proofs.Nearest

/-!
# Shared leading bits

The ids that share more than `i` leading bits with an id are those with the same high part. Their
distances from any target lie together: an id outside is nearer than all of them or nearer than
none.

Main statements: `partAt_sharedBits` and `distance_lt_iff_of_apart`.
-/

namespace SignedRecords.NodeId

/-! ## 1. The part in front -/

/-- The number that the first `160 - low` bits of an id make. -/
def high (low : Nat) (a : NodeId) : Nat := a.toNat >>> low

theorem high_eq_iff_lt {a b : NodeId} {low : Nat} :
    a.high low = b.high low ↔ (a ^^^ b).toNat < 2 ^ low := by
  unfold high
  rw [BitVec.toNat_xor, ← Nat.xor_eq_zero_iff, ← Nat.shiftRight_xor_distrib,
    Nat.shiftRight_eq_div_pow, Nat.div_eq_zero_iff]
  simp

/-- Two ids share more than `i` bits when their parts above the next bits are the same. -/
theorem lt_sharedBits {a b : NodeId} {i : Nat} (hi : i < 160) :
    i < a.sharedBits b ↔ a.high (159 - i) = b.high (159 - i) := by
  rw [high_eq_iff_lt, sharedBits]
  generalize (a ^^^ b).toNat = x
  by_cases hx : x = 0
  · subst hx
    have hpos := Nat.two_pow_pos (159 - i)
    simp only [Nat.mul_zero, Nat.log2_zero]
    omega
  · have hlog : (2 * x).log2 < 160 - i ↔ 2 * x < 2 ^ (160 - i) := Nat.log2_lt (by omega)
    have hpow : 2 ^ (160 - i) = 2 * 2 ^ (159 - i) := by
      rw [show 160 - i = (159 - i) + 1 by omega, Nat.pow_succ, Nat.mul_comm]
    omega

theorem sharedBits_lt {a b : NodeId} (h : a ≠ b) : a.sharedBits b < 160 := by
  have hne : (a ^^^ b).toNat ≠ 0 := by
    intro hzero
    have hself : a.high 0 = b.high 0 ↔ (a ^^^ b).toNat < 2 ^ 0 := high_eq_iff_lt
    rw [hzero] at hself
    exact h (BitVec.eq_of_toNat_eq (hself.2 (by decide)))
  have hlog : 1 ≤ (2 * (a ^^^ b).toNat).log2 := (Nat.le_log2 (by omega)).2 (by omega)
  unfold sharedBits
  omega

theorem sharedBits_le (a b : NodeId) : a.sharedBits b ≤ 160 := Nat.sub_le _ _

/-- Ids with the same part in front have the same one in front of fewer bits. -/
theorem high_eq_of_le {a b : NodeId} {low more : Nat} (hle : low ≤ more)
    (h : a.high low = b.high low) : a.high more = b.high more := by
  obtain ⟨d, rfl⟩ := Nat.exists_eq_add_of_le hle
  unfold high at h ⊢
  rw [Nat.shiftRight_add, Nat.shiftRight_add, h]

theorem high_succ (a : NodeId) (low : Nat) : a.high (low + 1) = a.high low / 2 :=
  Nat.shiftRight_succ _ _

/-- Before the first bit in which they differ, two ids are the same. -/
theorem high_eq_of_sharedBits {a b : NodeId} {i : Nat} (hi : i < 160) (h : a.sharedBits b = i) :
    a.high (159 - i + 1) = b.high (159 - i + 1) := by
  cases i with
  | zero =>
    have hzero : ∀ c : NodeId, c.high 160 = 0 := by
      intro c
      unfold high
      rw [Nat.shiftRight_eq_div_pow]
      exact Nat.div_eq_of_lt c.isLt
    exact (hzero a).trans (hzero b).symm
  | succ i =>
    have hlt : i < a.sharedBits b := by omega
    have heq := (lt_sharedBits (by omega)).1 hlt
    rwa [show 159 - (i + 1) + 1 = 159 - i by omega]

/-- The first `i` bits of two ids are the same, and the next ones are not. -/
structure PartAt (a b : NodeId) (i : Nat) : Prop where
  agree : ∀ j < i, a.getMsbD j = b.getMsbD j
  differ : a.getMsbD i ≠ b.getMsbD i

theorem getMsbD_eq_high (a : NodeId) {j : Nat} (hj : j < 160) :
    a.getMsbD j = (a.high (159 - j)).testBit 0 := by
  have hlow : 160 - 1 - j = 159 - j := by omega
  simp only [BitVec.getMsbD, hj, decide_true, Bool.true_and, BitVec.getLsbD, hlow, high,
    Nat.testBit_shiftRight, Nat.add_zero]

/-- Two ids share the bits before the first one in which they differ. -/
theorem partAt_sharedBits {a b : NodeId} (h : a ≠ b) : a.PartAt b (a.sharedBits b) := by
  have hlt := sharedBits_lt h
  constructor
  case agree =>
    intro j hj
    have hj' : j < 160 := by omega
    rw [getMsbD_eq_high a hj', getMsbD_eq_high b hj', (lt_sharedBits hj').1 hj]
  case differ =>
    rw [getMsbD_eq_high a hlt, getMsbD_eq_high b hlt]
    intro hbit
    have hhalf := high_eq_of_sharedBits hlt rfl
    rw [high_succ, high_succ] at hhalf
    have hodd : a.high (159 - a.sharedBits b) % 2 = b.high (159 - a.sharedBits b) % 2 := by
      rw [Nat.testBit_zero, Nat.testBit_zero, decide_eq_decide] at hbit
      omega
    exact Nat.lt_irrefl _ ((lt_sharedBits hlt).2 (by omega))

/-- Two ids part at one bit only. -/
theorem PartAt.sharedBits_eq {a b : NodeId} {i : Nat} (h : a.PartAt b i) : a.sharedBits b = i := by
  have hne : a ≠ b := fun e => h.differ (e ▸ rfl)
  have hshared := partAt_sharedBits hne
  rcases Nat.lt_trichotomy (a.sharedBits b) i with hlt | heq | hlt
  · exact absurd (h.agree _ hlt) hshared.differ
  · exact heq
  · exact absurd (hshared.agree _ hlt) h.differ

/-! ## 2. Three ids -/

/-- What shares more bits with `u` than `c` does is as far from `c` as `u` is. -/
theorem sharedBits_eq_of_lt {c u x : NodeId} (h : c.sharedBits u < x.sharedBits u) :
    c.sharedBits x = c.sharedBits u := by
  have hbound := sharedBits_le x u
  have hi : c.sharedBits u < 160 := by omega
  have hxu := (lt_sharedBits hi).1 h
  have hnot : ¬ c.sharedBits u < c.sharedBits x := by
    intro hlt
    have hcu := ((lt_sharedBits hi).1 hlt).trans hxu
    exact Nat.lt_irrefl _ ((lt_sharedBits hi).2 hcu)
  have hle : ¬ c.sharedBits x < c.sharedBits u := by
    intro hlt
    have hj : c.sharedBits x < 160 := by omega
    have hcu := (lt_sharedBits hj).1 hlt
    have hcx := hcu.trans (high_eq_of_le (by omega) hxu).symm
    exact Nat.lt_irrefl _ ((lt_sharedBits hj).2 hcx)
  omega

/-- Two ids that leave the way to `c` at the same bit go on together there. -/
theorem sharedBits_lt_of_eq {c u w : NodeId} (hne : c ≠ u)
    (h : c.sharedBits w = c.sharedBits u) : c.sharedBits u < w.sharedBits u := by
  have hi := sharedBits_lt hne
  generalize hc : c.sharedBits u = i at h hi ⊢
  -- Before the bit all three agree, and at the bit neither `u` nor `w` has that of `c`.
  have hat : ∀ a, c.sharedBits a = i → c.high (159 - i) ≠ a.high (159 - i) := by
    intro a ha heq
    have hlt := (lt_sharedBits hi).2 heq
    omega
  have hu := high_eq_of_sharedBits hi hc
  have hw := high_eq_of_sharedBits hi h
  have hu' := hat u hc
  have hw' := hat w h
  rw [high_succ, high_succ] at hu hw
  rw [lt_sharedBits hi]
  omega

/-! ## 3. Distances -/

theorem lt_of_shiftRight_lt {a b low : Nat} (h : a >>> low < b >>> low) : a < b := by
  by_contra hle
  rw [Nat.shiftRight_eq_div_pow, Nat.shiftRight_eq_div_pow] at h
  exact Nat.not_lt.2 (Nat.div_le_div_right (Nat.le_of_not_lt hle)) h

/-- Ids whose parts differ are compared by these. -/
theorem distance_lt_iff_of_high_ne {target x u : NodeId} {low : Nat}
    (h : x.high low ≠ u.high low) : Lookup.distance target x < Lookup.distance target u ↔
      x.high low ^^^ target.high low < u.high low ^^^ target.high low := by
  have hshift : ∀ a : NodeId,
      Lookup.distance target a >>> low = a.high low ^^^ target.high low := by
    intro a
    unfold Lookup.distance distance high
    rw [BitVec.toNat_xor, Nat.shiftRight_xor_distrib]
  have hne : x.high low ^^^ target.high low ≠ u.high low ^^^ target.high low :=
    fun heq => h (Nat.xor_left_inj.1 heq)
  rw [← hshift, ← hshift] at hne ⊢
  refine ⟨fun hlt => ?_, lt_of_shiftRight_lt⟩
  by_contra hle
  have hback : Lookup.distance target u >>> low < Lookup.distance target x >>> low := by omega
  exact Nat.lt_asymm hlt (lt_of_shiftRight_lt hback)

/-- The ids that share more bits with `u` than `x` does lie together: what is nearer than one of
    them is nearer than all. -/
theorem distance_lt_iff_of_apart {target x u w : NodeId} (h : x.sharedBits u < w.sharedBits u) :
    Lookup.distance target x < Lookup.distance target u ↔
      Lookup.distance target x < Lookup.distance target w := by
  have hbound := sharedBits_le w u
  have hi : x.sharedBits u < 160 := by omega
  have hwu := (lt_sharedBits hi).1 h
  have hxu : x.high (159 - x.sharedBits u) ≠ u.high (159 - x.sharedBits u) :=
    fun heq => Nat.lt_irrefl _ ((lt_sharedBits hi).2 heq)
  have hxw : x.high (159 - x.sharedBits u) ≠ w.high (159 - x.sharedBits u) := by
    rw [hwu]
    exact hxu
  rw [distance_lt_iff_of_high_ne hxu, distance_lt_iff_of_high_ne hxw, hwu]

end SignedRecords.NodeId
