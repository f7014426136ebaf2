import Mathlib.Algebra.Group.Nat.Defs
import SignedRecords.Proofs.Text
import SignedRecords.Record.Id

/-!
# z-base-32 read back

Octets that were written as letters are read back unchanged: the letters carry the bits of the
octets and fewer than five zeros after them, which fill no octet. So a key has one canonical id,
and the id names the key.
-/

namespace SignedRecords

namespace ZBase32

/-! ## 1. Bits -/

theorem foldl_bitsOf (w n start : Nat) :
    (bitsOf w n).foldl (fun k b => 2 * k + b.toNat) start = start * 2 ^ w + n % 2 ^ w := by
  induction w generalizing start with
  | zero => simp [bitsOf, Nat.mod_one]
  | succ w ih =>
    have hn : n % 2 ^ (w + 1) = 2 ^ w * (n.testBit w).toNat + n % 2 ^ w := by
      rw [Nat.pow_succ, Nat.mod_mul, Nat.testBit_eq_decide_div_mod_eq]
      have hbit : n / 2 ^ w % 2 < 2 := Nat.mod_lt _ (by decide)
      by_cases h : n / 2 ^ w % 2 = 1
      · simp [h, Nat.add_comm]
      · have h0 : n / 2 ^ w % 2 = 0 := by omega
        simp [h0]
    rw [bitsOf, List.foldl_cons, ih, hn, Nat.pow_succ]
    rw [Nat.add_mul, Nat.mul_comm (n.testBit w).toNat, Nat.mul_comm 2 start, Nat.mul_assoc,
      Nat.mul_comm 2 (2 ^ w), Nat.add_assoc]

/-- The lowest bits of a number are those of the number they write. -/
theorem ofBits_bitsOf (w n : Nat) : ofBits (bitsOf w n) = n % 2 ^ w := by
  rw [ofBits, foldl_bitsOf, Nat.zero_mul, Nat.zero_add]

theorem foldl_ofBits (bits : List Bool) (start : Nat) :
    bits.foldl (fun n b => 2 * n + b.toNat) start = 2 ^ bits.length * start + ofBits bits := by
  induction bits generalizing start with
  | nil => rw [List.foldl_nil, List.length_nil, Nat.pow_zero, Nat.one_mul, ofBits, List.foldl_nil,
      Nat.add_zero]
  | cons b rest ih =>
    have hcons : ofBits (b :: rest) = 2 ^ rest.length * b.toNat + ofBits rest := by
      rw [← ih, ofBits, List.foldl_cons, Nat.mul_zero, Nat.zero_add]
    rw [List.foldl_cons, ih, hcons, List.length_cons, Nat.pow_succ, Nat.mul_add, Nat.mul_assoc,
      Nat.add_assoc]

theorem ofBits_append (xs ys : List Bool) :
    ofBits (xs ++ ys) = 2 ^ ys.length * ofBits xs + ofBits ys := by
  rw [ofBits, List.foldl_append, foldl_ofBits]
  rfl

theorem ofBits_cons (b : Bool) (rest : List Bool) :
    ofBits (b :: rest) = 2 ^ rest.length * b.toNat + ofBits rest := by
  rw [← List.singleton_append, ofBits_append]
  cases b <;> rfl

theorem ofBits_lt (bits : List Bool) : ofBits bits < 2 ^ bits.length := by
  induction bits with
  | nil => decide
  | cons b rest ih =>
    have hmul := Nat.mul_le_mul_left (2 ^ rest.length) (Nat.le_of_lt_succ b.toNat_lt)
    rw [ofBits_cons, List.length_cons, Nat.pow_succ]
    omega

theorem bitsOf_congr {w n m : Nat} (h : ∀ i < w, n.testBit i = m.testBit i) :
    bitsOf w n = bitsOf w m := by
  induction w with
  | zero => rfl
  | succ w ih =>
    rw [bitsOf, bitsOf, h w (Nat.lt_succ_self w), ih fun i hi => h i (Nat.lt_succ_of_lt hi)]

/-- Bits are those of the number that they write. -/
theorem bitsOf_ofBits (bits : List Bool) : bitsOf bits.length (ofBits bits) = bits := by
  induction bits with
  | nil => rfl
  | cons b rest ih =>
    have hbit : ∀ i, (ofBits (b :: rest)).testBit i =
        if i < rest.length then (ofBits rest).testBit i else b.toNat.testBit (i - rest.length) := by
      intro i
      rw [ofBits_cons, Nat.testBit_two_pow_mul_add _ (ofBits_lt rest)]
    have hrest : bitsOf rest.length (ofBits (b :: rest)) = bitsOf rest.length (ofBits rest) :=
      bitsOf_congr fun i hi => by rw [hbit, if_pos hi]
    have hfirst : b.toNat.testBit 0 = b := by cases b <;> rfl
    rw [List.length_cons, bitsOf, hrest, ih, hbit, if_neg (Nat.lt_irrefl _), Nat.sub_self, hfirst]

/-- Every group of five bits is below 32. -/
theorem fives_lt (bits : List Bool) : ∀ v ∈ fives bits, v < 32 := by
  induction bits using fives.induct with
  | case1 => simp [fives]
  | case2 a => exact List.forall_mem_singleton.2 (ofBits_lt _)
  | case3 a b => exact List.forall_mem_singleton.2 (ofBits_lt _)
  | case4 a b c => exact List.forall_mem_singleton.2 (ofBits_lt _)
  | case5 a b c d => exact List.forall_mem_singleton.2 (ofBits_lt _)
  | case6 a b c d e rest ih => exact List.forall_mem_cons.2 ⟨ofBits_lt [a, b, c, d, e], ih⟩

/-- The groups of five carry the bits, and fewer than five zeros after them. -/
theorem flatMap_fives (bits : List Bool) :
    ∃ n < 5, (fives bits).flatMap (bitsOf 5) = bits ++ List.replicate n false := by
  induction bits using fives.induct with
  | case1 => exact ⟨0, by decide, rfl⟩
  | case2 a => exact ⟨4, by decide, bitsOf_ofBits [a, false, false, false, false]⟩
  | case3 a b => exact ⟨3, by decide, bitsOf_ofBits [a, b, false, false, false]⟩
  | case4 a b c => exact ⟨2, by decide, bitsOf_ofBits [a, b, c, false, false]⟩
  | case5 a b c d => exact ⟨1, by decide, bitsOf_ofBits [a, b, c, d, false]⟩
  | case6 a b c d e rest ih =>
    obtain ⟨n, hn, h⟩ := ih
    have hgroup : bitsOf 5 (ofBits [a, b, c, d, e]) = [a, b, c, d, e] :=
      bitsOf_ofBits [a, b, c, d, e]
    refine ⟨n, hn, ?_⟩
    rw [fives, List.flatMap_cons, hgroup, h]
    rfl

theorem length_bitsOf (w n : Nat) : (bitsOf w n).length = w := by
  induction w with
  | zero => rfl
  | succ w ih => rw [bitsOf, List.length_cons, ih]

theorem length_flatMap_bitsOf (w : Nat) (vs : List Nat) :
    (vs.flatMap (bitsOf w)).length = w * vs.length := by
  induction vs with
  | nil => rfl
  | cons v vs ih =>
    rw [List.flatMap_cons, List.length_append, length_bitsOf, ih, List.length_cons, Nat.mul_succ,
      Nat.add_comm]

/-- Five bits make a group, and so do fewer at the end. -/
theorem length_fives (bits : List Bool) : (fives bits).length = (bits.length + 4) / 5 := by
  induction bits using fives.induct with
  | case1 => rfl
  | case2 a => simp [fives]
  | case3 a b => simp [fives]
  | case4 a b c => simp [fives]
  | case5 a b c d => simp [fives]
  | case6 a b c d e rest ih =>
    simp only [fives, List.length_cons, ih]
    omega

theorem eights_short {bits : List Bool} (h : bits.length < 8) : eights bits = [] := by
  unfold eights
  split
  · simp only [List.length_cons] at h
    omega
  · rfl

theorem eights_group {group : List Bool} (h : group.length = 8) (rest : List Bool) :
    eights (group ++ rest) = ofBits group :: eights rest := by
  match group, h with
  | [_, _, _, _, _, _, _, _], _ => rfl

/-- The bits of a string of octets. -/
def octetBits (bs : Bytes) : List Bool := bs.flatMap fun b => bitsOf 8 b.toNat

theorem octetBits_eq (bs : Bytes) : octetBits bs = (bs.map (·.toNat)).flatMap (bitsOf 8) := by
  rw [List.flatMap_map]
  rfl

theorem length_octetBits (bs : Bytes) : (octetBits bs).length = 8 * bs.length := by
  rw [octetBits_eq, length_flatMap_bitsOf, List.length_map]

/-- The groups of eight are the octets; what is too short for a group is dropped. -/
theorem eights_octets (bs : Bytes) {rest : List Bool} (h : rest.length < 8) :
    eights (octetBits bs ++ rest) = bs.map (·.toNat) := by
  induction bs with
  | nil => exact eights_short h
  | cons b more ih =>
    have hcons : octetBits (b :: more) = bitsOf 8 b.toNat ++ octetBits more := rfl
    rw [hcons, List.append_assoc, eights_group (length_bitsOf 8 _), ih, ofBits_bitsOf,
      Nat.mod_eq_of_lt b.toNat_lt, List.map_cons]

/-! ## 2. Letters -/

theorem value?_letter : ∀ v : Fin 32, value? (UInt8.ofNat (letter v).toNat) = some v.val := by
  decide +kernel

theorem letter_mem (v : Nat) : letter v ∈ alphabet := by
  rw [letter, List.getD_eq_getElem?_getD]
  cases h : alphabet[v]? with
  | none => decide
  | some c => exact List.mem_of_getElem? h

theorem alphabet_ascii {c : Char} (h : c ∈ alphabet) : c.toNat < 128 := by
  have hall : alphabet.all (fun c => c.toNat < 128) = true := by decide +kernel
  exact of_decide_eq_true (List.all_eq_true.1 hall c h)

theorem letter_ascii (v : Nat) : (letter v).toNat < 128 := alphabet_ascii (letter_mem v)

theorem values_letters {vs : List Nat} (h : ∀ v ∈ vs, v < 32) :
    values (vs.map fun v => UInt8.ofNat (letter v).toNat) = .ok vs := by
  induction vs with
  | nil => rfl
  | cons v rest ih =>
    have hv := value?_letter ⟨v, h v List.mem_cons_self⟩
    have hrest := ih fun u hu => h u (List.mem_cons_of_mem _ hu)
    simp only [List.map_cons, values] at hv ⊢
    rw [hv, hrest]
    rfl

/-- The values are those of the octets, one by one. -/
theorem values_eq_ok {bs : Bytes} {vs : List Nat} :
    values bs = .ok vs ↔ bs.map value? = vs.map some := by
  induction bs generalizing vs with
  | nil => cases vs <;> simp [values]
  | cons b rest ih =>
    unfold values
    cases hb : value? b with
    | none => cases vs <;> simp [hb]
    | some v =>
      cases vs with
      | nil => cases values rest <;> simp [Except.map]
      | cons u us =>
        rw [List.map_cons, List.map_cons, hb, List.cons.injEq, ← ih]
        cases values rest <;> simp [Except.map]

theorem values_lt {text : Bytes} {vs : List Nat} (h : values text = .ok vs) :
    ∀ v ∈ vs, v < 32 := by
  intro v hv
  have hmem : some v ∈ text.map value? := values_eq_ok.1 h ▸ List.mem_map_of_mem hv
  obtain ⟨b, -, hvalue⟩ := List.mem_map.1 hmem
  exact (List.findIdx?_eq_some_iff_getElem.1 hvalue).1

/-- The octets of the letters. -/
theorem ofText_encode (bs : Bytes) :
    Bytes.ofText (encode bs) =
      (fives (octetBits bs)).map fun v => UInt8.ofNat (letter v).toNat := by
  rw [encode, Bytes.ofText_ascii, letters, List.map_map]
  · rfl
  · intro c hc
    obtain ⟨v, _, rfl⟩ := List.mem_map.1 hc
    exact letter_ascii v

/-- What was written is read back. -/
theorem decode_encode (bs : Bytes) : decode (encode bs) = .ok bs := by
  obtain ⟨n, hn, hbits⟩ := flatMap_fives (octetBits bs)
  have hzeros : (List.replicate n false).length < 8 := by
    rw [List.length_replicate]
    omega
  rw [decode, decodeBytes, ofText_encode, values_letters (fives_lt _)]
  simp only [Except.map]
  rw [hbits, eights_octets bs hzeros, List.map_map]
  congr 1
  exact List.map_id'' (fun b => UInt8.ofNat_toNat) bs

end ZBase32

/-! ## 3. Record ids -/

theorem recordId_isEmpty (key : Octets 32) : (recordId key).isEmpty = false := by
  have hlen : 0 < key.toList.length := by
    rw [key.length_eq]
    decide
  cases he : (recordId key).isEmpty with
  | false => rfl
  | true =>
    exfalso
    have hempty : recordId key = "" := by simpa using he
    have h := ZBase32.decode_encode key.toList
    rw [← recordId, hempty] at h
    have hnil : key.toList = [] := (Except.ok.inj h).symm
    rw [hnil] at hlen
    exact absurd hlen (by decide)

/-- The canonical id of a key names the key. -/
theorem readRecordId_recordId (key : Octets 32) : readRecordId (recordId key) = .ok key := by
  rw [readRecordId, recordId_isEmpty, if_neg (by decide), readZBase32, recordId,
    ZBase32.decode_encode]
  simp only [Octets.ofBytes?_toList]

/-- An id is the text of its key's octets. -/
theorem decode_of_readRecordId {text : String} {key : Octets 32}
    (h : readRecordId text = .ok key) : ZBase32.decode text = .ok key.toList := by
  unfold readRecordId readZBase32 at h
  split at h
  · cases h
  cases hdecode : ZBase32.decode text with
  | error b =>
    rw [hdecode] at h
    cases h
  | ok bs =>
    simp only [hdecode] at h
    split at h
    · cases h
    · rename_i hbytes
      obtain rfl := Except.ok.inj h
      rw [Octets.ofBytes?_eq_some.1 hbytes]

theorem recordId_inj {a b : Octets 32} : recordId a = recordId b ↔ a = b := by
  constructor
  · intro h
    have hb := readRecordId_recordId b
    rw [← h, readRecordId_recordId a] at hb
    exact Except.ok.inj hb
  · rintro rfl
    rfl

/-- A canonical id has 52 letters. -/
theorem utf8ByteSize_recordId (key : Octets 32) : (recordId key).utf8ByteSize = 52 := by
  have hoctets : (recordId key).utf8ByteSize = (Bytes.ofText (recordId key)).length := rfl
  rw [hoctets, recordId, ZBase32.ofText_encode, List.length_map, ZBase32.length_fives,
    ZBase32.length_octetBits, key.length_eq]

end SignedRecords
