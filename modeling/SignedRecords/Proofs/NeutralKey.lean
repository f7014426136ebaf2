import SignedRecords.Proofs.Wire

/-!
# A key that signs everything

Points of small order are not refused as public keys. For the neutral point the part of the
equation that depends on the message vanishes, so one signature holds for every message. Nobody
has to know a secret, and records of this key with any value and any sequence number are valid.

Main statement: `neutral_signature_holds`.
-/

namespace SignedRecords

namespace Ed25519

namespace Point

theorem neutral_add_neutral : neutral.add neutral = neutral := by
  decide +kernel

/-- All multiples of the neutral point are the neutral point. -/
theorem times_neutral (n : Nat) : neutral.times n = neutral := by
  have hfold : ∀ bs : List Bool,
      bs.foldl (fun r b => if b then (r.add r).add neutral else r.add r) neutral = neutral := by
    intro bs
    induction bs with
    | nil => rfl
    | cons b rest ih =>
      rw [List.foldl_cons]
      cases b with
      | false =>
        simp only [Bool.false_eq_true, if_false, neutral_add_neutral]
        exact ih
      | true =>
        simp only [if_true, neutral_add_neutral]
        exact ih
  exact hfold (bits 256 n)

end Point

end Ed25519

open Ed25519 (Point PublicKey)

/-- The form of the neutral point. -/
def neutralKey : Octets 32 := ⟨1 :: List.replicate 31 0, rfl⟩

/-- The neutral point, and zero. -/
def neutralSignature : Octets 64 := ⟨1 :: List.replicate 63 0, rfl⟩

theorem ofOctets?_neutralKey : Point.ofOctets? neutralKey = some .neutral := by
  decide +kernel

theorem readPublicKey_neutralKey :
    readPublicKey neutralKey.toList = .ok ⟨neutralKey, .neutral, ofOctets?_neutralKey⟩ := by
  have hkey : PublicKey.ofOctets? neutralKey =
      some ⟨neutralKey, .neutral, ofOctets?_neutralKey⟩ := by
    unfold PublicKey.ofOctets?
    split
    · rename_i p hp
      have heq : p = .neutral := Option.some.inj (hp.symm.trans ofOctets?_neutralKey)
      subst heq
      rfl
    · rename_i hnone
      rw [ofOctets?_neutralKey] at hnone
      cases hnone
  unfold readPublicKey
  rw [Octets.ofBytes?_toList]
  simp only [hkey]

/-- A signature of this form holds for a key whose point is the neutral one, whatever the message
    is. -/
theorem check_of_neutral {k : PublicKey} (hk : k.point.neg = .neutral) {signature : Octets 64}
    (hs : Bytes.ofLittleEndian (signature.toList.drop 32) = 0)
    (hbig : Point.neutral.octets.toList = signature.toList.take 32) (message : Bytes) :
    k.check message signature = .ok () := by
  have hzero : Point.base.times 0 = .neutral := by decide +kernel
  simp only [PublicKey.check, hs, hk, hzero, Point.times_neutral, Point.neutral_add_neutral]
  rw [if_neg (by decide), if_neg (by decide), if_pos hbig]

theorem itemSignatureHolds_of_check {key : Octets 32} {k : PublicKey}
    (hk : readPublicKey key.toList = .ok k) {salt value : Bytes} {sequence : Sequence}
    {signature : Octets 64} (h : k.check (signable salt sequence value) signature = .ok ()) :
    itemSignatureHolds key salt sequence value signature.toList = true := by
  simp only [itemSignatureHolds, hk, verifySignature, Octets.ofBytes?_toList, h]
  rfl

/-- One signature holds for every salt, sequence number and value. -/
theorem neutral_signature_holds (salt : Bytes) (sequence : Sequence) (value : Bytes) :
    itemSignatureHolds neutralKey salt sequence value neutralSignature.toList = true := by
  have hneg : Point.neutral.neg = .neutral := by decide +kernel
  have hscalar : Bytes.ofLittleEndian (neutralSignature.toList.drop 32) = 0 := by decide
  have hbig : Point.neutral.octets.toList = neutralSignature.toList.take 32 := by
    decide +kernel
  exact itemSignatureHolds_of_check readPublicKey_neutralKey
    (check_of_neutral hneg hscalar hbig _)

/-- A record of this key. -/
def neutralRecord (value : Bytes) (sequence : Sequence) : Record :=
  ⟨neutralKey, value, neutralSignature, sequence⟩

theorem validate_neutralRecord {value : Bytes} {sequence : Sequence}
    (hvalue : value.length ≤ maxValueSize) (hsequence : sequence ≠ 0) :
    (neutralRecord value sequence).validate = .ok () :=
  Record.validate_eq_ok.2 ⟨hvalue, hsequence, neutral_signature_holds [] sequence value⟩

/-- A record of the key that repeats an octet; nobody has signed it. -/
def Record.ofOctet (octet : UInt8) : Record :=
  { neutralRecord [octet] 1 with key := ⟨List.replicate 32 octet, rfl⟩ }

end SignedRecords
