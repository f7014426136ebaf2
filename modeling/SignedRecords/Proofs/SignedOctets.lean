import SignedRecords.Proofs.Bencode
import SignedRecords.Proofs.NeutralKey

/-!
# What a signature covers

A salt, a sequence number and a value stand one after the other in the octets that are signed, and
salt and value may hold anything, also what looks like the rest of the form. The octets can still
be read in one way only: the first one tells whether there is a salt, salt and value are as long as
the numbers before them say, and the sequence number goes up to the first `e`. So a signature that
a key accepts for two items that differ in this is one that it accepts for two messages.

Main statement: `signable_determines`.
-/

namespace SignedRecords

/-! ## 1. Sequence numbers -/

/-- The `e` that ends a sequence number is not part of it. -/
theorem end_not_mem_decimalSequence (s : Sequence) : (101 : UInt8) ∉ decimalSequence s := by
  have hdigits : (101 : UInt8) ∉ decimal s.toInt.natAbs := not_mem_decimal (by decide) _
  unfold decimalSequence
  split
  · exact List.not_mem_cons_of_ne_of_not_mem (by decide) hdigits
  · exact hdigits

/-- The minus sign tells the numbers below zero from the others. -/
theorem decimalSequence_inj {s s' : Sequence} (h : decimalSequence s = decimalSequence s') :
    s = s' := by
  have hminus : ∀ n rest, decimal n ≠ (45 : UInt8) :: rest := fun n rest heq =>
    not_mem_decimal (b := 45) (by decide) n (heq ▸ List.mem_cons_self)
  apply Int64.toInt_inj.1
  unfold decimalSequence at h
  split at h
  · split at h
    · have habs := decimal_inj (List.cons.inj h).2
      omega
    · exact absurd h.symm (hminus _ _)
  · split at h
    · exact absurd h (hminus _ _)
    · have habs := decimal_inj h
      omega

/-! ## 2. The form -/

theorem signable_nil (s : Sequence) (value : Bytes) :
    signable [] s value = Bytes.ofText "3:seqi" ++
      (decimalSequence s ++ 101 :: (Bytes.ofText "1:v" ++ bencode value)) := by
  have hend : Bytes.ofText "e1:v" = 101 :: Bytes.ofText "1:v" := by decide +kernel
  rw [signable, List.isEmpty_nil, if_pos rfl, hend]
  simp only [List.nil_append, List.append_assoc, List.cons_append]

/-- A salt goes before all the rest. -/
theorem signable_salted {salt : Bytes} (h : salt ≠ []) (s : Sequence) (value : Bytes) :
    signable salt s value = Bytes.ofText "4:salt" ++ (bencode salt ++ signable [] s value) := by
  have hsalt : salt.isEmpty = false := List.isEmpty_eq_false_iff.2 h
  simp only [signable, hsalt, List.isEmpty_nil, if_true, Bool.false_eq_true, if_false,
    List.nil_append, List.append_assoc]

/-- Without salt the form can be read off the front of any octets in one way at most. -/
theorem signable_nil_append_inj {s s' : Sequence} {value value' rest rest' : Bytes}
    (h : signable [] s value ++ rest = signable [] s' value' ++ rest') :
    s = s' ∧ value = value' ∧ rest = rest' := by
  simp only [signable_nil, List.append_assoc, List.cons_append] at h
  obtain ⟨hsequence, htail⟩ := append_cons_inj (end_not_mem_decimalSequence s)
    (end_not_mem_decimalSequence s') (List.append_cancel_left h)
  obtain ⟨hvalue, hrest⟩ := bencode_append_inj (List.append_cancel_left htail)
  exact ⟨decimalSequence_inj hsequence, hvalue, hrest⟩

/-- The first octet tells whether there is a salt. -/
theorem signable_salted_ne {salt : Bytes} (h : salt ≠ []) (s s' : Sequence)
    (value value' rest rest' : Bytes) :
    signable salt s value ++ rest ≠ signable [] s' value' ++ rest' := by
  have hsalted : Bytes.ofText "4:salt" = 52 :: Bytes.ofText ":salt" := by decide +kernel
  have hplain : Bytes.ofText "3:seqi" = 51 :: Bytes.ofText ":seqi" := by decide +kernel
  rw [signable_salted h, signable_nil, hsalted, hplain]
  simp only [List.cons_append]
  intro heq
  exact absurd (List.cons.inj heq).1 (by decide)

/-- The form can be read off the front of any octets in one way at most. -/
theorem signable_append_inj {salt salt' : Bytes} {s s' : Sequence} {value value' rest rest' : Bytes}
    (h : signable salt s value ++ rest = signable salt' s' value' ++ rest') :
    salt = salt' ∧ s = s' ∧ value = value' ∧ rest = rest' := by
  by_cases hs : salt = []
  · subst hs
    by_cases hs' : salt' = []
    · subst hs'
      exact ⟨rfl, signable_nil_append_inj h⟩
    · exact absurd h.symm (signable_salted_ne hs' s' s value' value rest' rest)
  · by_cases hs' : salt' = []
    · subst hs'
      exact absurd h (signable_salted_ne hs s s' value value' rest rest')
    · rw [signable_salted hs, signable_salted hs'] at h
      simp only [List.append_assoc] at h
      obtain ⟨hsalt, htail⟩ := bencode_append_inj (List.append_cancel_left h)
      exact ⟨hsalt, signable_nil_append_inj htail⟩

/-! ## 3. Signatures -/

/-- A key accepts a signature for two messages. -/
def AcceptsTwo (key : Octets 32) (signature : Bytes) : Prop :=
  ∃ k message message', readPublicKey key.toList = .ok k ∧ message ≠ message' ∧
    verifySignature k message signature = .ok () ∧ verifySignature k message' signature = .ok ()

/-- What it takes for a signature of an item to hold. -/
theorem itemSignatureHolds_iff {key : Octets 32} {salt value signature : Bytes} {s : Sequence} :
    itemSignatureHolds key salt s value signature = true ↔
      ∃ k, readPublicKey key.toList = .ok k ∧
        verifySignature k (signable salt s value) signature = .ok () := by
  unfold itemSignatureHolds
  cases hk : readPublicKey key.toList with
  | error e => simp
  | ok k =>
    cases hv : verifySignature k (signable salt s value) signature with
    | error e => simp [hv, Except.isOk, Except.toBool]
    | ok _ => simp [hv, Except.isOk, Except.toBool]

/-- The octets that are signed determine salt, sequence number and value. So where a signature holds
    for two items that differ in one of these, the key accepts it for two messages, and not because
    one message could be read in two ways. -/
theorem signable_determines (salt salt' : Bytes) (s s' : Sequence) (value value' : Bytes) :
    (signable salt s value = signable salt' s' value' ↔
      salt = salt' ∧ s = s' ∧ value = value') ∧
    ∀ (key : Octets 32) (signature : Bytes),
      itemSignatureHolds key salt s value signature = true →
        itemSignatureHolds key salt' s' value' signature = true →
          (salt = salt' ∧ s = s' ∧ value = value') ∨ AcceptsTwo key signature := by
  have hsame : signable salt s value = signable salt' s' value' ↔
      salt = salt' ∧ s = s' ∧ value = value' := by
    constructor
    · intro h
      obtain ⟨hsalt, hs, hvalue, -⟩ := signable_append_inj (congrArg (· ++ []) h)
      exact ⟨hsalt, hs, hvalue⟩
    · rintro ⟨rfl, rfl, rfl⟩
      rfl
  refine ⟨hsame, fun key signature h h' => ?_⟩
  obtain ⟨k, hk, hv⟩ := itemSignatureHolds_iff.1 h
  obtain ⟨k', hk', hv'⟩ := itemSignatureHolds_iff.1 h'
  obtain rfl : k = k' := Except.ok.inj (hk.symm.trans hk')
  by_cases heq : signable salt s value = signable salt' s' value'
  · exact .inl (hsame.1 heq)
  · exact .inr ⟨k, _, _, hk, heq, hv, hv'⟩

/-- The neutral key accepts one signature for a value and for the octets of its whole form, taken as
    a salt: two messages, of which the second has the first in it. -/
theorem signable_determines_of_neutral :
    signable [] 1 [118] ≠ signable (signable [] 1 [118]) 1 [118] ∧
      AcceptsTwo neutralKey neutralSignature.toList := by
  obtain ⟨hsame, hsigns⟩ :=
    signable_determines [] (signable [] 1 [118]) 1 1 [118] [118]
  have hsalt : [] ≠ signable [] 1 [118] := by decide +kernel
  rcases hsigns neutralKey neutralSignature.toList (neutral_signature_holds _ _ _)
    (neutral_signature_holds _ _ _) with hequal | htwo
  · exact absurd hequal.1 hsalt
  · exact ⟨fun heq => hsalt (hsame.1 heq).1, htwo⟩

end SignedRecords
