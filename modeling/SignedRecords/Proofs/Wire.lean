import Mathlib.Algebra.Group.Nat.Defs
import SignedRecords.Record.Basic

/-!
# Wire forms read back

A response that fits is read back from its octets unchanged, and a larger one is not read at all.
A valid record is read back from its stored form under its own key. Nothing else is read: what is
read is written again as it was.

Main statements: `Response.ofBytes_eq_ok` and `Record.ofWire_eq_ok`.
-/

namespace SignedRecords

theorem Bytes.span_eight : Bytes.span 8 = 2 ^ 64 := by
  decide

namespace Response

theorem length_toBytes (r : Response) : r.toBytes.length = headerSize + r.value.length := by
  rw [toBytes, List.length_append, List.length_append, r.signature.length_eq,
    Bytes.length_bigEndian]
  rfl

theorem take_toBytes (r : Response) : r.toBytes.take 64 = r.signature.toList := by
  rw [toBytes, List.append_assoc, List.take_left' r.signature.length_eq]

theorem drop_toBytes (r : Response) :
    r.toBytes.drop 64 = Bytes.bigEndian 8 r.sequence.toUInt64.toNat ++ r.value := by
  rw [toBytes, List.append_assoc, List.drop_left' r.signature.length_eq]

/-- The sequence number survives as a word without sign. -/
theorem sequence_toBytes (r : Response) :
    (UInt64.ofNat (Bytes.ofBigEndian ((r.toBytes.drop 64).take 8))).toInt64 = r.sequence := by
  have hlt : r.sequence.toUInt64.toNat % 2 ^ 64 = r.sequence.toUInt64.toNat :=
    Nat.mod_eq_of_lt r.sequence.toUInt64.toNat_lt
  rw [drop_toBytes, List.take_left' (Bytes.length_bigEndian _ _), Bytes.ofBigEndian_bigEndian,
    Bytes.span_eight, hlt, UInt64.ofNat_toNat]
  rfl

theorem value_toBytes (r : Response) : r.toBytes.drop headerSize = r.value := by
  have h := congrArg (List.drop 8) (drop_toBytes r)
  rw [List.drop_drop, List.drop_left' (Bytes.length_bigEndian _ _)] at h
  exact h

/-- A response that fits is read back. -/
theorem ofBytes_toBytes {r : Response} (h : r.value.length ≤ maxValueSize) :
    ofBytes r.toBytes = .ok r := by
  have hlen := length_toBytes r
  unfold ofBytes
  rw [dif_neg (by omega), if_neg (by omega)]
  refine congrArg Except.ok ?_
  cases r with
  | mk value sequence signature =>
    congr 1
    · exact value_toBytes _
    · exact sequence_toBytes _
    · exact Octets.ext (take_toBytes _)

/-- What is read back from the octets of a response is the response. -/
theorem eq_of_ofBytes_toBytes {r x : Response} (h : ofBytes r.toBytes = .ok x) : x = r := by
  have hlen := length_toBytes r
  by_cases hfits : r.value.length ≤ maxValueSize
  · rw [ofBytes_toBytes hfits] at h
    exact (Except.ok.inj h).symm
  · unfold ofBytes at h
    rw [dif_neg (by omega), if_pos (by omega)] at h
    cases h

/-- What is read is written again as it was. -/
theorem toBytes_of_ofBytes {bs : Bytes} {x : Response} (h : ofBytes bs = .ok x) :
    x.toBytes = bs := by
  unfold ofBytes at h
  split at h
  · cases h
  rename_i hlong
  split at h
  · cases h
  obtain rfl := Except.ok.inj h
  have hlength : headerSize ≤ bs.length := Nat.le_of_not_lt hlong
  have hheader : ((bs.drop 64).take 8).length = 8 := by
    rw [List.length_take, List.length_drop]
    unfold headerSize at hlength
    omega
  have hlt := Bytes.ofBigEndian_lt ((bs.drop 64).take 8)
  have hback := Bytes.bigEndian_ofBigEndian ((bs.drop 64).take 8)
  rw [hheader] at hlt hback
  rw [Bytes.span_eight] at hlt
  have hword : (UInt64.ofNat (Bytes.ofBigEndian ((bs.drop 64).take 8))).toInt64.toUInt64.toNat =
      Bytes.ofBigEndian ((bs.drop 64).take 8) := by
    rw [UInt64.toUInt64_toInt64]
    exact UInt64.toNat_ofNat_of_lt' hlt
  have hvalue : bs.drop headerSize = (bs.drop 64).drop 8 := by
    rw [List.drop_drop]
    rfl
  rw [toBytes]
  simp only [hword, hback]
  rw [hvalue, List.append_assoc, List.take_append_drop, List.take_append_drop]

/-- A response is read from its own octets and from no others, if it fits. -/
theorem ofBytes_eq_ok {bs : Bytes} {x : Response} :
    ofBytes bs = .ok x ↔ bs.length ≤ headerSize + maxValueSize ∧ x.toBytes = bs := by
  constructor
  · intro h
    have hback := toBytes_of_ofBytes h
    refine ⟨?_, hback⟩
    unfold ofBytes at h
    split at h
    · cases h
    · split at h
      · cases h
      · omega
  · rintro ⟨hlong, rfl⟩
    rw [length_toBytes] at hlong
    exact ofBytes_toBytes (by omega)

end Response

namespace Record

/-- What a valid record is. -/
theorem validate_eq_ok {r : Record} :
    r.validate = .ok () ↔
      r.value.length ≤ maxValueSize ∧ r.sequence ≠ 0 ∧ r.signatureHolds = true := by
  unfold validate
  split
  · rename_i hlarge
    constructor
    · intro h
      cases h
    · rintro ⟨hfits, -⟩
      omega
  · rename_i hfits
    split
    · rename_i hzero
      simp [hzero]
    · rename_i hseq
      split
      · rename_i hsig
        exact ⟨fun _ => ⟨by omega, hseq, hsig⟩, fun _ => rfl⟩
      · rename_i hsig
        simp [hsig]

/-- Building a record from the parts of a valid one gives that one. -/
theorem make_of_validate {r : Record} (h : r.validate = .ok ()) :
    make r.key.toList r.value r.signature.toList r.sequence = .ok r := by
  obtain ⟨hfits, hseq, hsig⟩ := validate_eq_ok.1 h
  unfold make
  simp only [Octets.ofBytes?_toList]
  rw [if_neg (by omega), if_neg hseq, if_pos hsig]

/-- A valid record is read back from its stored form. -/
theorem ofWire_toWire {r : Record} (h : r.validate = .ok ()) :
    ofWire r.key.toList r.toWire = .ok r := by
  have hfits := (validate_eq_ok.1 h).1
  have hread : Response.ofBytes r.toWire = .ok r.response := Response.ofBytes_toBytes hfits
  rw [ofWire, hread]
  exact make_of_validate h

/-- What is built from its parts is a valid record with these parts. -/
theorem make_eq_ok {key value signature : Bytes} {sequence : Sequence} {r : Record} :
    make key value signature sequence = .ok r ↔ r.validate = .ok () ∧ r.key.toList = key ∧
      r.value = value ∧ r.signature.toList = signature ∧ r.sequence = sequence := by
  constructor
  · intro h
    unfold make at h
    split at h
    · cases h
    rename_i k hk
    split at h
    · cases h
    rename_i hfits
    split at h
    · cases h
    rename_i s hs
    split at h
    · cases h
    rename_i hseq
    dsimp only at h
    split at h
    · rename_i hsigned
      obtain rfl := Except.ok.inj h
      exact ⟨validate_eq_ok.2 ⟨Nat.le_of_not_lt hfits, hseq, hsigned⟩,
        (Octets.ofBytes?_eq_some.1 hk).symm, rfl, (Octets.ofBytes?_eq_some.1 hs).symm, rfl⟩
    · cases h
  · rintro ⟨hvalid, rfl, rfl, rfl, rfl⟩
    exact make_of_validate hvalid

/-- A valid record is read from its own stored form under its own key, and nothing else is. -/
theorem ofWire_eq_ok {key wire : Bytes} {r : Record} :
    ofWire key wire = .ok r ↔ r.validate = .ok () ∧ r.key.toList = key ∧ r.toWire = wire := by
  constructor
  · intro h
    unfold ofWire at h
    split at h
    · cases h
    · rename_i x hx
      obtain ⟨hvalid, hkey, hvalue, hsignature, hsequence⟩ := make_eq_ok.1 h
      refine ⟨hvalid, hkey, ?_⟩
      have hresponse : r.response = x := by
        cases x
        subst hvalue hsequence
        rw [response, Octets.ext hsignature]
      rw [toWire, hresponse]
      exact (Response.ofBytes_eq_ok.1 hx).2
  · rintro ⟨hvalid, rfl, rfl⟩
    exact ofWire_toWire hvalid

end Record

end SignedRecords
