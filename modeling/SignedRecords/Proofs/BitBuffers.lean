import SignedRecords.Proofs.ZBase32

/-!
# Letters and octets through a buffer

Texts can be written and read with one word of 32 bits. Bits that wait are the lowest of the word:
taking others in moves them up, giving some out leaves these in the word, and they are cleared
before the next are taken in. No more than twelve ever wait, so that none is lost at the upper end.
What comes out are the groups of five when octets are taken in, and the groups of eight when values
of letters are.

Main statements: `BitBuffer.letters_eq` and `BitBuffer.decodeBytes_eq`.
-/

namespace SignedRecords.ZBase32

/-- A word whose lowest bits wait. -/
structure BitBuffer where
  word : UInt32
  waiting : Nat

namespace BitBuffer

/-! ## 1. The buffer -/

/-- A buffer in which nothing waits. -/
def empty : BitBuffer := ⟨0, 0⟩

/-- Takes in a number of `w` bits. -/
def push (b : BitBuffer) (w : Nat) (value : UInt32) : BitBuffer :=
  ⟨b.word <<< UInt32.ofNat w ||| value, b.waiting + w⟩

/-- The `w` bits that have waited longest, which stay in the word. -/
def pop (b : BitBuffer) (w : Nat) : UInt32 × BitBuffer :=
  let waiting := b.waiting - w
  (b.word >>> UInt32.ofNat waiting &&& UInt32.ofNat (2 ^ w - 1), ⟨b.word, waiting⟩)

/-- Clears the bits that do not wait. -/
def clear (b : BitBuffer) : BitBuffer :=
  ⟨b.word &&& UInt32.ofNat (2 ^ b.waiting - 1), b.waiting⟩

/-- Gives out groups of five as long as so many bits wait. -/
def drain (b : BitBuffer) : List UInt32 × BitBuffer :=
  if 5 ≤ b.waiting then
    ((b.pop 5).1 :: (b.pop 5).2.drain.1, (b.pop 5).2.drain.2)
  else ([], b)
termination_by b.waiting
decreasing_by
  show b.waiting - 5 < b.waiting
  omega

/-- Takes in octets and gives out groups of five, the last one filled up with zeros. -/
def write (b : BitBuffer) : Bytes → List UInt32
  | [] =>
    if 0 < b.waiting then [b.word <<< UInt32.ofNat (5 - b.waiting) &&& UInt32.ofNat (2 ^ 5 - 1)]
    else []
  | octet :: rest =>
    let next := (b.push 8 octet.toUInt32).drain
    next.1 ++ next.2.clear.write rest

/-- Takes in values of letters and gives out octets. -/
def read (b : BitBuffer) : List Nat → Bytes
  | [] => []
  | v :: rest =>
    let next := b.push 5 (UInt32.ofNat v)
    if 8 ≤ next.waiting then (next.pop 8).1.toUInt8 :: (next.pop 8).2.clear.read rest
    else next.clear.read rest

/-! ## 2. The bits that wait -/

/-- Some bits wait, and others may be above them in the word. -/
structure Holds (b : BitBuffer) (bits : List Bool) : Prop where
  waiting : b.waiting = bits.length
  few : bits.length < 32
  word : b.word.toNat % 2 ^ bits.length = ofBits bits

/-- Some bits wait, and there are no others. -/
structure Clean (b : BitBuffer) (bits : List Bool) : Prop where
  waiting : b.waiting = bits.length
  word : b.word.toNat = ofBits bits

theorem clean_empty : empty.Clean [] := ⟨rfl, rfl⟩

variable {b : BitBuffer} {bits more : List Bool}

theorem toNat_shift {n : Nat} (h : n < 32) : (UInt32.ofNat n).toNat % 32 = n := by
  rw [UInt32.toNat_ofNat_of_lt' (Nat.lt_trans h (by decide)), Nat.mod_eq_of_lt h]

theorem toNat_mask {n : Nat} (h : n < 32) : (UInt32.ofNat (2 ^ n - 1)).toNat = 2 ^ n - 1 := by
  have hpow : 2 ^ n < 2 ^ 32 := Nat.pow_lt_pow_right (by decide) h
  exact UInt32.toNat_ofNat_of_lt' (by show 2 ^ n - 1 < 2 ^ 32; omega)

theorem Clean.push (h : b.Clean bits) {w : Nat} (hw : more.length = w)
    (hfew : bits.length + w < 32) {value : UInt32} (hvalue : value.toNat = ofBits more) :
    (b.push w value).Clean (bits ++ more) := by
  subst hw
  refine ⟨by rw [BitBuffer.push, h.waiting, List.length_append], ?_⟩
  have hmore := ofBits_lt more
  have hall := ofBits_lt (bits ++ more)
  have hpow : 2 ^ (bits ++ more).length ≤ 2 ^ 32 :=
    Nat.pow_le_pow_right (by decide) (by rw [List.length_append]; omega)
  rw [ofBits_append] at hall
  rw [BitBuffer.push, UInt32.toNat_or, UInt32.toNat_shiftLeft, toNat_shift (by omega), h.word,
    hvalue, ofBits_append, Nat.shiftLeft_eq, Nat.mul_comm, Nat.mod_eq_of_lt (by omega),
    Nat.mul_comm, ← Nat.shiftLeft_eq, Nat.shiftLeft_add_eq_or_of_lt hmore]

theorem Clean.holds (h : b.Clean bits) (hfew : bits.length < 32) : b.Holds bits :=
  ⟨h.waiting, hfew, by rw [h.word, Nat.mod_eq_of_lt (ofBits_lt bits)]⟩

theorem Holds.pop {group : List Bool} (h : b.Holds (group ++ bits)) :
    (b.pop group.length).1.toNat = ofBits group ∧ (b.pop group.length).2.Holds bits := by
  obtain ⟨hwaiting, hfew, hword⟩ := h
  rw [List.length_append] at hwaiting hfew hword
  rw [ofBits_append, Nat.add_comm, Nat.pow_add] at hword
  have hleft : b.waiting - group.length = bits.length := by omega
  have hbits := ofBits_lt bits
  constructor
  · rw [BitBuffer.pop, hleft, UInt32.toNat_and, UInt32.toNat_shiftRight, toNat_shift (by omega),
      toNat_mask (by omega), Nat.and_two_pow_sub_one_eq_mod, Nat.shiftRight_eq_div_pow,
      ← Nat.mod_mul_right_div_self, hword, Nat.mul_add_div (Nat.two_pow_pos _),
      Nat.div_eq_of_lt hbits, Nat.add_zero]
  · refine ⟨hleft, by omega, ?_⟩
    show b.word.toNat % 2 ^ bits.length = ofBits bits
    rw [← Nat.mod_mul_right_mod b.word.toNat (2 ^ bits.length) (2 ^ group.length), hword,
      Nat.mul_add_mod, Nat.mod_eq_of_lt hbits]

theorem Holds.clear (h : b.Holds bits) : b.clear.Clean bits := by
  refine ⟨h.waiting, ?_⟩
  rw [BitBuffer.clear, UInt32.toNat_and, h.waiting, toNat_mask h.few,
    Nat.and_two_pow_sub_one_eq_mod, h.word]

/-! ## 3. Octets in, letters out -/

theorem fives_group {group : List Bool} (h : group.length = 5) (rest : List Bool) :
    fives (group ++ rest) = ofBits group :: fives rest := by
  match group, h with
  | [_, _, _, _, _], _ => rfl

/-- What is given out and what still waits are the groups of what has waited. -/
theorem Holds.drain (h : b.Holds bits) : ∃ rest, rest.length < 5 ∧ b.drain.2.Holds rest ∧
    ∀ more, fives (bits ++ more) = b.drain.1.map (·.toNat) ++ fives (rest ++ more) := by
  fun_induction BitBuffer.drain b generalizing bits with
  | case1 b hfull ih =>
    have hlength : (bits.take 5).length = 5 := by
      have hwaiting := h.waiting
      rw [List.length_take]
      omega
    rw [← List.take_append_drop 5 bits] at h
    have hpop := h.pop
    rw [hlength] at hpop
    obtain ⟨rest, hrest, hholds, hfives⟩ := ih hpop.2
    refine ⟨rest, hrest, hholds, fun more => ?_⟩
    have hsplit : bits ++ more = bits.take 5 ++ (bits.drop 5 ++ more) := by
      rw [← List.append_assoc, List.take_append_drop]
    rw [hsplit, fives_group hlength, hfives, List.map_cons, hpop.1, List.cons_append]
  | case2 b hfew => exact ⟨bits, by have := h.waiting; omega, h, fun more => rfl⟩

theorem ofBits_zeros (n : Nat) : ofBits (List.replicate n false) = 0 := by
  induction n with
  | zero => rfl
  | succ n ih => rw [List.replicate_succ, ofBits_cons, ih, Bool.toNat_false, Nat.mul_zero]

/-- Fewer than five bits make one group, filled up with zeros. -/
theorem fives_few (h : bits.length < 5) (hpos : 0 < bits.length) :
    fives bits = [2 ^ (5 - bits.length) * ofBits bits] := by
  have hfill : fives bits = [ofBits (bits ++ List.replicate (5 - bits.length) false)] := by
    match bits, hpos, h with
    | [_], _, _ | [_, _], _, _ | [_, _, _], _, _ | [_, _, _, _], _, _ => rfl
  rw [hfill, ofBits_append, ofBits_zeros, List.length_replicate, Nat.add_zero]

/-- The letters that are written once some bits wait. -/
theorem Clean.write {bs : Bytes} (h : b.Clean bits) (hfew : bits.length < 5) :
    (b.write bs).map (·.toNat) = fives (bits ++ octetBits bs) := by
  induction bs generalizing b bits with
  | nil =>
    have hbits : bits ++ octetBits [] = bits := List.append_nil bits
    rw [BitBuffer.write, hbits, h.waiting]
    split
    · rename_i hpos
      have hgroup : 2 ^ (5 - bits.length) * ofBits bits < 2 ^ 5 := by
        have hpow : 0 < 2 ^ (5 - bits.length) := Nat.two_pow_pos _
        have hword := Nat.mul_lt_mul_of_pos_left (ofBits_lt bits) hpow
        rwa [← Nat.pow_add, Nat.sub_add_cancel (Nat.le_of_lt hfew)] at hword
      rw [fives_few hfew hpos, List.map_singleton, UInt32.toNat_and, UInt32.toNat_shiftLeft,
        toNat_shift (by omega), toNat_mask (by decide), Nat.and_two_pow_sub_one_eq_mod, h.word,
        Nat.shiftLeft_eq, Nat.mul_comm, Nat.mod_eq_of_lt (Nat.lt_trans hgroup (by decide)),
        Nat.mod_eq_of_lt hgroup]
    · rename_i hnone
      rw [List.length_eq_zero_iff.1 (Nat.eq_zero_of_not_pos hnone)]
      rfl
  | cons octet rest ih =>
    have hpush : (b.push 8 octet.toUInt32).Clean (bits ++ bitsOf 8 octet.toNat) := by
      refine h.push (length_bitsOf 8 _) (by omega) ?_
      rw [UInt8.toNat_toUInt32, ofBits_bitsOf, Nat.mod_eq_of_lt octet.toNat_lt]
    have hlength : (bits ++ bitsOf 8 octet.toNat).length < 32 := by
      rw [List.length_append, length_bitsOf]
      omega
    obtain ⟨left, hleft, hholds, hfives⟩ := (hpush.holds hlength).drain
    have hbits : bits ++ octetBits (octet :: rest) =
        bits ++ bitsOf 8 octet.toNat ++ octetBits rest := by
      rw [List.append_assoc]
      rfl
    rw [BitBuffer.write, List.map_append, ih hholds.clear hleft, hbits, hfives]

/-- Texts can be written through a buffer. -/
theorem letters_eq (bs : Bytes) : letters bs = (empty.write bs).map fun v => letter v.toNat := by
  have hwrite : (empty.write bs).map (·.toNat) = fives (octetBits bs) :=
    clean_empty.write (by decide)
  have hletters := congrArg (List.map letter) hwrite
  rw [List.map_map] at hletters
  exact hletters.symm

/-! ## 4. Letters in, octets out -/

/-- The octets that are read once some bits wait. -/
theorem Clean.read {vs : List Nat} (hsmall : ∀ v ∈ vs, v < 32) (h : b.Clean bits)
    (hfew : bits.length < 8) :
    b.read vs = (eights (bits ++ vs.flatMap (bitsOf 5))).map UInt8.ofNat := by
  induction vs generalizing b bits with
  | nil =>
    rw [BitBuffer.read, List.flatMap_nil, List.append_nil, eights_short hfew]
    rfl
  | cons v rest ih =>
    obtain ⟨hv, hrest⟩ := List.forall_mem_cons.1 hsmall
    have hpush : (b.push 5 (UInt32.ofNat v)).Clean (bits ++ bitsOf 5 v) := by
      refine h.push (length_bitsOf 5 v) (by omega) ?_
      rw [UInt32.toNat_ofNat_of_lt' (Nat.lt_trans hv (by decide)), ofBits_bitsOf]
      exact (Nat.mod_eq_of_lt hv).symm
    have hlength : (bits ++ bitsOf 5 v).length = bits.length + 5 := by
      rw [List.length_append, length_bitsOf]
    have hbits : bits ++ (v :: rest).flatMap (bitsOf 5) =
        (bits ++ bitsOf 5 v) ++ rest.flatMap (bitsOf 5) := by
      rw [List.append_assoc]
      rfl
    rw [BitBuffer.read, hbits]
    have hholds := hpush.holds (by omega)
    have hwaiting := hpush.waiting
    generalize bits ++ bitsOf 5 v = waiting at *
    split
    · rename_i hfull
      have hgroup : (waiting.take 8).length = 8 := by
        rw [List.length_take]
        omega
      have hsplit : waiting ++ rest.flatMap (bitsOf 5) =
          waiting.take 8 ++ (waiting.drop 8 ++ rest.flatMap (bitsOf 5)) := by
        rw [← List.append_assoc, List.take_append_drop]
      rw [← List.take_append_drop 8 waiting] at hholds
      have hpop := hholds.pop
      rw [hgroup] at hpop
      have hoctet : ((b.push 5 (UInt32.ofNat v)).pop 8).1.toUInt8 =
          UInt8.ofNat (ofBits (waiting.take 8)) := by
        rw [← hpop.1]
        rfl
      rw [hoctet, ih hrest hpop.2.clear (by rw [List.length_drop]; omega), hsplit,
        eights_group hgroup, List.map_cons]
    · rename_i hshort
      rw [ih hrest hholds.clear (by omega)]

/-- Texts can be read through a buffer. -/
theorem decodeBytes_eq (text : Bytes) : decodeBytes text = (values text).map empty.read := by
  unfold decodeBytes
  cases hvalues : values text with
  | error b => rfl
  | ok vs => exact congrArg Except.ok (clean_empty.read (values_lt hvalues) (by decide)).symm

end BitBuffer

end SignedRecords.ZBase32
