import SignedRecords.Bytes.Basic

/-!
# Numbers of a fixed width

A number written in `w` octets, most significant first (`bigEndian`) or least significant first
(`littleEndian`), and the two readings back. Bits above the width are dropped by the writers; the
readers take any number of octets.

Main statements: reading what was written gives the number modulo `span w`, which is 256 to the
power `w`, and writing what was read gives the octets back.
-/

namespace SignedRecords

namespace Bytes

/-- How many numbers `w` octets can write. -/
def span : Nat → Nat
  | 0 => 1
  | w + 1 => 256 * span w

/-! ## 1. Least significant octet first -/

/-- The lowest `w` octets of `n`, least significant first. -/
def littleEndian : Nat → Nat → Bytes
  | 0, _ => []
  | w + 1, n => UInt8.ofNat (n % 256) :: littleEndian w (n / 256)

/-- The number whose octets these are, least significant first. -/
def ofLittleEndian : Bytes → Nat
  | [] => 0
  | b :: rest => b.toNat + 256 * ofLittleEndian rest

@[simp] theorem length_littleEndian (w n : Nat) : (littleEndian w n).length = w := by
  induction w generalizing n with
  | zero => rfl
  | succ w ih => simp [littleEndian, ih]

theorem ofLittleEndian_lt (bs : Bytes) : ofLittleEndian bs < span bs.length := by
  induction bs with
  | nil => simp [ofLittleEndian, span]
  | cons b rest ih =>
    have hb : b.toNat < 256 := b.toNat_lt
    simp only [ofLittleEndian, List.length_cons, span]
    omega

theorem littleEndian_ofLittleEndian (bs : Bytes) :
    littleEndian bs.length (ofLittleEndian bs) = bs := by
  induction bs with
  | nil => rfl
  | cons b rest ih =>
    have hb : b.toNat < 256 := b.toNat_lt
    simp only [ofLittleEndian, List.length_cons, littleEndian]
    have h1 : (b.toNat + 256 * ofLittleEndian rest) % 256 = b.toNat := by omega
    have h2 : (b.toNat + 256 * ofLittleEndian rest) / 256 = ofLittleEndian rest := by omega
    rw [h1, h2, ih, UInt8.ofNat_toNat]

theorem ofLittleEndian_littleEndian (w n : Nat) :
    ofLittleEndian (littleEndian w n) = n % span w := by
  induction w generalizing n with
  | zero => simp [littleEndian, ofLittleEndian, span, Nat.mod_one]
  | succ w ih =>
    have h : (UInt8.ofNat (n % 256)).toNat = n % 256 := by
      simp
    simp only [littleEndian, ofLittleEndian, ih, h, span]
    rw [Nat.mod_mul]

/-! ## 2. Most significant octet first -/

/-- The lowest `w` octets of `n`, most significant first. -/
def bigEndian (w n : Nat) : Bytes := (littleEndian w n).reverse

/-- The number whose octets these are, most significant first. -/
def ofBigEndian (bs : Bytes) : Nat := ofLittleEndian bs.reverse

@[simp] theorem length_bigEndian (w n : Nat) : (bigEndian w n).length = w := by
  simp [bigEndian]

theorem ofBigEndian_lt (bs : Bytes) : ofBigEndian bs < span bs.length := by
  simpa [ofBigEndian] using ofLittleEndian_lt bs.reverse

theorem bigEndian_ofBigEndian (bs : Bytes) : bigEndian bs.length (ofBigEndian bs) = bs := by
  have h := littleEndian_ofLittleEndian bs.reverse
  simp only [List.length_reverse] at h
  simp [bigEndian, ofBigEndian, h]

theorem ofBigEndian_bigEndian (w n : Nat) : ofBigEndian (bigEndian w n) = n % span w := by
  simp [bigEndian, ofBigEndian, ofLittleEndian_littleEndian]

end Bytes

end SignedRecords
