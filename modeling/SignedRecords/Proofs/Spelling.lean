import Mathlib.Data.List.Basic
import SignedRecords.Proofs.BitBuffers
import SignedRecords.Proofs.LossyText

/-!
# What a text of letters spells

A text of letters, in either case, spells the bits of their values. The octets that are read from
it are the groups of eight of these; what is left over is its surplus. A text is the one that is
written for the octets read from it, up to case, where the surplus is of zeros and shorter than a
letter. A record id has 52 letters, and the surplus is all of the last one but its highest bit: so
two ids name one key where they differ in nothing else.

Main statement: `ZBase32.texts_spell_octets`.
-/

namespace SignedRecords

/-- A text whose form is ASCII has no other characters. -/
theorem ascii_of_ofText {text : String} (h : (Bytes.ofText text).Ascii) :
    ∀ c ∈ text.toList, c.toNat < 128 := by
  intro c hc
  refine Nat.lt_of_not_le fun hwide => ?_
  obtain ⟨o, os, hform, ho⟩ := utf8EncodeChar_wide hwide
  rw [← String.ofList_toList (s := text), Bytes.ofText_ofList] at h
  have hmem : o ∈ text.toList.flatMap String.utf8EncodeChar :=
    List.mem_flatMap.2 ⟨c, hc, hform ▸ List.mem_cons_self⟩
  exact absurd (h o hmem) (Nat.not_lt.2 ho)

namespace ZBase32

/-! ## 1. Groups of bits -/

/-- Bits are fewer than eight, or a group of eight and others. -/
theorem eights_induction {motive : List Bool → Prop}
    (short : ∀ bits : List Bool, bits.length < 8 → motive bits)
    (group : ∀ group rest : List Bool, group.length = 8 → motive rest → motive (group ++ rest))
    (bits : List Bool) : motive bits := by
  induction hn : bits.length / 8 generalizing bits with
  | zero => exact short bits (by omega)
  | succ n ih =>
    have hrest : motive (bits.drop 8) := ih _ (by rw [List.length_drop]; omega)
    have hgroup : (bits.take 8).length = 8 := by
      rw [List.length_take]
      omega
    rw [← List.take_append_drop 8 bits]
    exact group _ _ hgroup hrest

/-- The groups of eight carry the bits, but not those at the end that do not fill one. -/
theorem flatMap_eights (bits : List Bool) :
    ∃ rest : List Bool, rest.length < 8 ∧ (eights bits).flatMap (bitsOf 8) ++ rest = bits := by
  induction bits using eights_induction with
  | short bits hshort => exact ⟨bits, hshort, by rw [eights_short hshort]; rfl⟩
  | group group rest hgroup ih =>
    obtain ⟨left, hleft, hrest⟩ := ih
    have hback := bitsOf_ofBits group
    rw [hgroup] at hback
    refine ⟨left, hleft, ?_⟩
    rw [eights_group hgroup, List.flatMap_cons, hback, List.append_assoc, hrest]

/-- Every group of eight bits is an octet. -/
theorem eights_lt (bits : List Bool) : ∀ v ∈ eights bits, v < 2 ^ 8 := by
  induction bits using eights_induction with
  | short bits hshort =>
    rw [eights_short hshort]
    exact fun v hv => nomatch hv
  | group group rest hgroup ih =>
    rw [eights_group hgroup]
    exact List.forall_mem_cons.2 ⟨hgroup ▸ ofBits_lt group, ih⟩

/-- Numbers that fit are determined by their bits. -/
theorem flatMap_bitsOf_inj {w : Nat} (hw : 0 < w) {vs us : List Nat} (hv : ∀ v ∈ vs, v < 2 ^ w)
    (hu : ∀ u ∈ us, u < 2 ^ w) (h : vs.flatMap (bitsOf w) = us.flatMap (bitsOf w)) : vs = us := by
  have hcount := congrArg List.length h
  rw [length_flatMap_bitsOf, length_flatMap_bitsOf] at hcount
  have hlength := Nat.eq_of_mul_eq_mul_left hw hcount
  clear hcount
  induction vs generalizing us with
  | nil => exact (List.length_eq_zero_iff.1 hlength.symm).symm
  | cons v vs ih =>
    cases us with
    | nil => cases hlength
    | cons u us =>
      rw [List.flatMap_cons, List.flatMap_cons] at h
      obtain ⟨hfirst, hrest⟩ :=
        List.append_inj h ((length_bitsOf w v).trans (length_bitsOf w u).symm)
      have hvalue := congrArg ofBits hfirst
      rw [ofBits_bitsOf, ofBits_bitsOf, Nat.mod_eq_of_lt (hv v List.mem_cons_self),
        Nat.mod_eq_of_lt (hu u List.mem_cons_self)] at hvalue
      rw [hvalue, ih (List.forall_mem_cons.1 hv).2 (List.forall_mem_cons.1 hu).2 hrest
        (Nat.succ.inj hlength)]

/-- Bits filled up with fewer than five zeros have one division into groups of five. -/
theorem fives_eq {bits : List Bool} {vs : List Nat} {n : Nat} (hv : ∀ v ∈ vs, v < 32) (hn : n < 5)
    (h : vs.flatMap (bitsOf 5) = bits ++ List.replicate n false) : fives bits = vs := by
  obtain ⟨m, hm, hbits⟩ := flatMap_fives bits
  have hlength := congrArg List.length h
  have hfives := congrArg List.length hbits
  rw [length_flatMap_bitsOf, List.length_append, List.length_replicate] at hlength hfives
  obtain rfl : m = n := by omega
  exact flatMap_bitsOf_inj (by decide) (fives_lt bits) hv (hbits.trans h.symm)

/-! ## 2. Letters in either case -/

/-- A character is a letter of the alphabet, in either case. -/
def IsLetter (c : Char) : Prop := c.toLower ∈ alphabet

/-- The value of a letter, in either case. -/
def valueOf (c : Char) : Nat := alphabet.idxOf c.toLower

instance (c : Char) : Decidable (IsLetter c) := inferInstanceAs (Decidable (_ ∈ _))

theorem valueOf_lt {c : Char} (h : IsLetter c) : valueOf c < 32 :=
  List.idxOf_lt_length_of_mem h

theorem letter_valueOf {c : Char} (h : IsLetter c) : letter (valueOf c) = c.toLower := by
  rw [letter, valueOf, List.getD_eq_getElem?_getD, List.getElem?_idxOf h]
  rfl

theorem valueOf_letter : ∀ v < 32, valueOf (letter v) = v := by
  decide +kernel

theorem toLower_letter (v : Nat) : (letter v).toLower = letter v := by
  have hall : alphabet.all (fun c => c.toLower = c) = true := by decide +kernel
  exact of_decide_eq_true (List.all_eq_true.1 hall _ (letter_mem v))

theorem value?_octet {c : Char} (h : c.toNat < 128) :
    value? (UInt8.ofNat c.toNat) = if IsLetter c then some (valueOf c) else none := by
  have hall : ∀ n < 128, value? (UInt8.ofNat n) =
      if IsLetter (Char.ofNat n) then some (valueOf (Char.ofNat n)) else none := by
    decide +kernel
  have hc := hall c.toNat h
  rwa [Char.ofNat_toNat] at hc

theorem IsLetter.ascii {c : Char} (h : IsLetter c) : c.toNat < 128 := by
  refine Nat.lt_of_not_le fun hwide => ?_
  have hlower : c.toLower = c := by
    refine dif_neg fun hcapital => ?_
    have hsmall : c.toNat ≤ 90 := UInt32.le_iff_toNat_le.1 hcapital.2
    omega
  exact absurd (alphabet_ascii (hlower ▸ h)) (Nat.not_lt.2 hwide)

/-- An octet is a letter of the alphabet, in either case. -/
def IsLetterOctet (b : UInt8) : Prop := ∃ c ∈ alphabet, c.toNat = (lowered b).toNat

theorem value?_isSome {b : UInt8} : (∃ v, value? b = some v) ↔ IsLetterOctet b := by
  rw [← Option.isSome_iff_exists, value?, List.findIdx?_isSome, List.any_eq_true]
  simp only [decide_eq_true_eq, IsLetterOctet]

/-! ## 3. Texts of letters -/

/-- All characters of a text are letters, in either case. -/
def Spelled (text : String) : Prop := ∀ c ∈ text.toList, IsLetter c

/-- The bits that a text spells. -/
def spelledBits (text : String) : List Bool := (text.toList.map valueOf).flatMap (bitsOf 5)

theorem values_isOk {bs : Bytes} : (∃ vs, values bs = .ok vs) ↔ ∀ b ∈ bs, IsLetterOctet b := by
  constructor
  · rintro ⟨vs, hvalues⟩ b hb
    have hmem : value? b ∈ vs.map some :=
      values_eq_ok.1 hvalues ▸ List.mem_map_of_mem hb
    obtain ⟨v, -, hv⟩ := List.mem_map.1 hmem
    exact value?_isSome.1 ⟨v, hv.symm⟩
  · intro h
    refine ⟨bs.map fun b => (value? b).getD 0, values_eq_ok.2 ?_⟩
    rw [List.map_map]
    refine List.map_congr_left fun b hb => ?_
    obtain ⟨v, hv⟩ := value?_isSome.2 (h b hb)
    rw [Function.comp_apply, hv]
    rfl

theorem ofText_of_ascii {text : String} (h : ∀ c ∈ text.toList, c.toNat < 128) :
    Bytes.ofText text = text.toList.map fun c => UInt8.ofNat c.toNat := by
  have htext := Bytes.ofText_ascii text.toList h
  rwa [String.ofList_toList] at htext

/-- What a text of letters spells. -/
theorem Spelled.values {text : String} (h : Spelled text) :
    values (Bytes.ofText text) = .ok (text.toList.map valueOf) := by
  rw [values_eq_ok, ofText_of_ascii fun c hc => (h c hc).ascii, List.map_map, List.map_map]
  refine List.map_congr_left fun c hc => ?_
  rw [Function.comp_apply, value?_octet (h c hc).ascii, if_pos (h c hc)]
  rfl

/-- Only texts of letters can be read. -/
theorem spelled_of_values {text : String} {vs : List Nat}
    (h : ZBase32.values (Bytes.ofText text) = .ok vs) : Spelled text := by
  have hascii := ascii_of_ofText (ascii_of_values h)
  intro c hc
  rw [values_eq_ok, ofText_of_ascii hascii, List.map_map] at h
  have hmem : value? (UInt8.ofNat c.toNat) ∈ vs.map some :=
    h ▸ List.mem_map_of_mem (f := value? ∘ fun c : Char => UInt8.ofNat c.toNat) hc
  obtain ⟨v, -, hv⟩ := List.mem_map.1 hmem
  rw [value?_octet (hascii c hc)] at hv
  split at hv
  · assumption
  · cases hv

/-! ## 4. Octets and what is left over -/

/-- What does not fill an octet of the bits that a text spells. -/
def surplus (text : String) : List Bool := (spelledBits text).drop (8 * (5 * text.length / 8))

theorem octetBits_ofNat {vs : List Nat} (h : ∀ v ∈ vs, v < 2 ^ 8) :
    octetBits (vs.map UInt8.ofNat) = vs.flatMap (bitsOf 8) := by
  have hvs : vs.map (fun v => (UInt8.ofNat v).toNat) = vs.map id :=
    List.map_congr_left fun v hv => UInt8.toNat_ofNat_of_lt' (h v hv)
  rw [octetBits_eq, List.map_map]
  exact congrArg (List.flatMap (bitsOf 8)) (hvs.trans (List.map_id vs))

theorem octetBits_inj {bs bs' : Bytes} (h : octetBits bs = octetBits bs') : bs = bs' := by
  have hlt : ∀ cs : Bytes, ∀ v ∈ cs.map (·.toNat), v < 2 ^ 8 := by
    intro cs v hv
    obtain ⟨b, -, rfl⟩ := List.mem_map.1 hv
    exact b.toNat_lt
  rw [octetBits_eq, octetBits_eq] at h
  have hvalues := flatMap_bitsOf_inj (by decide) (hlt bs) (hlt bs') h
  exact List.map_injective_iff.2 (fun _ _ => UInt8.toNat_inj.1) hvalues

theorem length_spelledBits (text : String) : (spelledBits text).length = 5 * text.length := by
  rw [spelledBits, length_flatMap_bitsOf, List.length_map, String.length_toList]

theorem Spelled.utf8ByteSize {text : String} (h : Spelled text) :
    text.utf8ByteSize = text.length := by
  have hoctets : text.utf8ByteSize = (Bytes.ofText text).length := rfl
  rw [hoctets, ofText_of_ascii fun c hc => (h c hc).ascii, List.length_map, String.length_toList]

/-- The octets that are read from a text of letters: those that it spells, without the surplus. -/
structure Reads (text : String) (bs : Bytes) : Prop where
  spelled : Spelled text
  length_eq : bs.length = 5 * text.length / 8
  bits : octetBits bs ++ surplus text = spelledBits text

theorem Spelled.reads {text : String} (h : Spelled text) :
    Reads text ((eights (spelledBits text)).map UInt8.ofNat) := by
  obtain ⟨rest, hrest, hbits⟩ := flatMap_eights (spelledBits text)
  have hlength := congrArg List.length hbits
  rw [List.length_append, length_flatMap_bitsOf, length_spelledBits] at hlength
  have hcount : (eights (spelledBits text)).length = 5 * text.length / 8 := by omega
  have hsurplus : surplus text = rest := by
    have hdrop := congrArg (List.drop (8 * (5 * text.length / 8))) hbits
    rw [← hcount, ← length_flatMap_bitsOf, List.drop_left, length_flatMap_bitsOf, hcount] at hdrop
    exact hdrop.symm
  refine ⟨h, (List.length_map _).trans hcount, ?_⟩
  rw [octetBits_ofNat (eights_lt _), hsurplus, hbits]

theorem Spelled.decode {text : String} (h : Spelled text) :
    decode text = .ok ((eights (spelledBits text)).map UInt8.ofNat) := by
  rw [ZBase32.decode, decodeBytes, h.values]
  rfl

theorem spelled_of_decode {text : String} {bs : Bytes} (h : decode text = .ok bs) :
    Spelled text := by
  unfold decode decodeBytes at h
  cases hvalues : ZBase32.values (Bytes.ofText text) with
  | error b =>
    rw [hvalues] at h
    cases h
  | ok vs => exact spelled_of_values hvalues

theorem reads_of_decode {text : String} {bs : Bytes} (h : decode text = .ok bs) :
    Reads text bs := by
  have hspelled := spelled_of_decode h
  obtain rfl := Except.ok.inj (hspelled.decode.symm.trans h)
  exact hspelled.reads

theorem decode_isOk {text : String} :
    (∃ bs, decode text = .ok bs) ↔ ∀ b ∈ Bytes.ofText text, IsLetterOctet b := by
  rw [← values_isOk, decode, decodeBytes]
  cases ZBase32.values (Bytes.ofText text) <;> simp [Except.map]

/-! ## 5. Writing again -/

theorem toList_toLower (text : String) : text.toLower.toList = text.toList.map Char.toLower :=
  String.toList_map

theorem toList_encode (bs : Bytes) : (encode bs).toList = (fives (octetBits bs)).map letter :=
  String.toList_ofList

theorem toLower_encode (bs : Bytes) : (encode bs).toLower = encode bs := by
  refine String.toList_inj.1 ?_
  rw [toList_toLower, toList_encode, List.map_map]
  exact List.map_congr_left fun v _ => toLower_letter v

theorem length_encode (bs : Bytes) : (encode bs).length = (8 * bs.length + 4) / 5 := by
  rw [← String.length_toList, toList_encode, List.length_map, length_fives, length_octetBits]

theorem Spelled.toList_toLower {text : String} (h : Spelled text) :
    text.toLower.toList = (text.toList.map valueOf).map letter := by
  rw [ZBase32.toList_toLower, List.map_map]
  exact List.map_congr_left fun c hc => (letter_valueOf (h c hc)).symm

theorem Spelled.values_lt {text : String} (h : Spelled text) :
    ∀ v ∈ text.toList.map valueOf, v < 32 := by
  intro v hv
  obtain ⟨c, hc, rfl⟩ := List.mem_map.1 hv
  exact valueOf_lt (h c hc)

theorem map_letter_inj {vs us : List Nat} (hv : ∀ v ∈ vs, v < 32) (hu : ∀ u ∈ us, u < 32)
    (h : vs.map letter = us.map letter) : vs = us := by
  have hback : ∀ ws : List Nat, (∀ w ∈ ws, w < 32) → (ws.map letter).map valueOf = ws := by
    intro ws hw
    rw [List.map_map]
    exact (List.map_congr_left fun w hmem => valueOf_letter w (hw w hmem)).trans (List.map_id ws)
  rw [← hback vs hv, h, hback us hu]

/-- Up to case, a text of letters is written for octets whose groups of five are its values. -/
theorem Spelled.encode_eq {text : String} (h : Spelled text) {bs : Bytes} :
    encode bs = text.toLower ↔ fives (octetBits bs) = text.toList.map valueOf := by
  rw [← String.toList_inj, toList_encode, h.toList_toLower]
  exact ⟨map_letter_inj (fives_lt _) h.values_lt, congrArg (List.map letter)⟩

/-- A text that is written for octets has a surplus of zeros, shorter than a letter. -/
theorem Spelled.surplus_of_encode {text : String} (h : Spelled text) {bs : Bytes}
    (heq : encode bs = text.toLower) :
    (surplus text).length < 5 ∧ ∀ b ∈ surplus text, b = false := by
  obtain ⟨n, hn, hbits⟩ := flatMap_fives (octetBits bs)
  rw [h.encode_eq.1 heq] at hbits
  have hlength := congrArg List.length hbits
  rw [length_flatMap_bitsOf, List.length_map, String.length_toList, List.length_append,
    length_octetBits, List.length_replicate] at hlength
  have hcount : 5 * text.length / 8 = bs.length := by omega
  have hsurplus : surplus text = List.replicate n false := by
    rw [surplus, spelledBits, hbits, hcount, ← length_octetBits, List.drop_left]
  rw [hsurplus, List.length_replicate]
  exact ⟨hn, fun b hb => (List.mem_replicate.1 hb).2⟩

/-- A text with such a surplus is written, up to case, for the octets that are read from it. -/
theorem Reads.encode_eq {text : String} {bs : Bytes} (h : Reads text bs)
    (hshort : (surplus text).length < 5) (hzero : ∀ b ∈ surplus text, b = false) :
    encode bs = text.toLower := by
  refine h.spelled.encode_eq.2 (fives_eq h.spelled.values_lt hshort ?_)
  rw [← List.eq_replicate_of_mem hzero]
  exact h.bits.symm

/-! ## 6. Record ids -/

/-- The highest bit of the last letter. -/
def lastBit (text : String) : Option Bool :=
  text.toList.getLast?.map fun c => (valueOf c).testBit 4

/-- Ids have 52 letters. -/
theorem readRecordId_isOk {text : String} :
    (∃ key, readRecordId text = .ok key) ↔ text.length = 52 ∧ Spelled text := by
  constructor
  · rintro ⟨key, hkey⟩
    obtain ⟨hspelled, hlength, -⟩ := reads_of_decode (decode_of_readRecordId hkey)
    rw [key.length_eq] at hlength
    exact ⟨by omega, hspelled⟩
  · rintro ⟨hlength, hspelled⟩
    have hcount := hspelled.reads.length_eq
    rw [hlength] at hcount
    have hempty : text.isEmpty = false := by
      cases he : text.isEmpty with
      | false => rfl
      | true =>
        rw [String.isEmpty_iff.1 he] at hlength
        cases hlength
    refine ⟨⟨_, hcount⟩, ?_⟩
    rw [readRecordId, hempty, if_neg (by decide), readZBase32, hspelled.decode]
    simp only [Octets.ofBytes?, dif_pos hcount]

/-- An id taken apart: the values of its first 51 letters and the highest bit of the last one, which
    together are the bits of its key. -/
structure IdBits (text : String) (key : Octets 32) (vs : List Nat) (bit : Bool) : Prop where
  small : ∀ v ∈ vs, v < 32
  letters : text.toLower.toList.take 51 = vs.map letter
  last : lastBit text = some bit
  bits : octetBits key.toList = vs.flatMap (bitsOf 5) ++ [bit]

theorem idBits_of_readRecordId {text : String} {key : Octets 32}
    (h : readRecordId text = .ok key) : ∃ vs bit, IdBits text key vs bit := by
  obtain ⟨hlength, hspelled⟩ := readRecordId_isOk.1 ⟨key, h⟩
  rw [← String.length_toList] at hlength
  rcases List.eq_nil_or_concat' text.toList with hnil | ⟨cs, c, hcs⟩
  · rw [hnil] at hlength
    cases hlength
  have hcount : cs.length = 51 := by
    rw [hcs, List.length_append, List.length_singleton] at hlength
    exact Nat.succ.inj hlength
  have hvalues : text.toList.map valueOf = cs.map valueOf ++ [valueOf c] := by
    rw [hcs, List.map_append, List.map_singleton]
  refine ⟨cs.map valueOf, (valueOf c).testBit 4, fun v hv => ?_, ?_, ?_, ?_⟩
  · exact hspelled.values_lt v (hvalues ▸ List.mem_append_left _ hv)
  · rw [hspelled.toList_toLower, hvalues, List.map_append, List.take_left']
    rw [List.length_map, List.length_map, hcount]
  · rw [lastBit, hcs, List.getLast?_concat, Option.map_some]
  · -- The bits of the key are 256, and those of the first 51 letters are 255.
    have hlast : bitsOf 5 (valueOf c) = [(valueOf c).testBit 4] ++ bitsOf 4 (valueOf c) := rfl
    have hbits := (reads_of_decode (decode_of_readRecordId h)).bits
    rw [spelledBits, hvalues, List.flatMap_append, List.flatMap_singleton, hlast,
      ← List.append_assoc] at hbits
    refine List.append_inj_left hbits ?_
    rw [length_octetBits, key.length_eq, List.length_append, length_flatMap_bitsOf,
      List.length_map, hcount, List.length_singleton]

/-- Two ids name one key where they differ in nothing but case and the lower bits of the last
    letter. -/
theorem key_eq_iff {a b : String} {k l : Octets 32} (ha : readRecordId a = .ok k)
    (hb : readRecordId b = .ok l) :
    k = l ↔ a.toLower.toList.take 51 = b.toLower.toList.take 51 ∧ lastBit a = lastBit b := by
  obtain ⟨vs, bit, hvs⟩ := idBits_of_readRecordId ha
  obtain ⟨us, bit', hus⟩ := idBits_of_readRecordId hb
  have hbits : k = l ↔ octetBits k.toList = octetBits l.toList :=
    ⟨fun h => h ▸ rfl, fun h => Octets.ext (octetBits_inj h)⟩
  rw [hbits, hvs.bits, hus.bits, hvs.letters, hus.letters, hvs.last, hus.last, Option.some.injEq]
  constructor
  · intro h
    obtain ⟨hfirst, hlast⟩ := List.append_inj' h rfl
    exact ⟨congrArg _ (flatMap_bitsOf_inj (by decide) hvs.small hus.small hfirst),
      List.singleton_inj.1 hlast⟩
  · rintro ⟨hletters, rfl⟩
    rw [map_letter_inj hvs.small hus.small hletters]

/-! ## 7. All texts -/

/-- Texts are written and read as through a buffer of 32 bits. Octets are read back from the text
    that is written for them, which has a letter for every five bits. A text can be read where all
    its octets are letters, in either case, and gives as many octets as its bits fill. It is the
    text of the octets that it gives, up to case, where it is the text of any, and that is where its
    surplus is shorter than a letter and of zeros. Ids are the texts of 52 letters, and two of them
    name one key where all letters but the last are the same, up to case, and the highest bit of the
    last one. -/
theorem texts_spell_octets :
    (∀ bs, encode bs =
        String.ofList ((BitBuffer.empty.write bs).map fun v => letter v.toNat)) ∧
      (∀ text, decode text = (values (Bytes.ofText text)).map BitBuffer.empty.read) ∧
      (∀ bs, decode (encode bs) = .ok bs ∧ (encode bs).length = (8 * bs.length + 4) / 5) ∧
      (∀ text, (∃ bs, decode text = .ok bs) ↔ ∀ b ∈ Bytes.ofText text, IsLetterOctet b) ∧
      (∀ text bs, decode text = .ok bs → bs.length = 5 * text.utf8ByteSize / 8 ∧
        (encode bs = text.toLower ↔ ∃ bs', (encode bs').toLower = text.toLower) ∧
        (encode bs = text.toLower ↔
          (surplus text).length < 5 ∧ ∀ b ∈ surplus text, b = false)) ∧
      (∀ text, (∃ key, readRecordId text = .ok key) ↔
        text.length = 52 ∧ ∀ c ∈ text.toList, IsLetter c) ∧
      ∀ a b k l, readRecordId a = .ok k → readRecordId b = .ok l →
        (k = l ↔ a.toLower.toList.take 51 = b.toLower.toList.take 51 ∧ lastBit a = lastBit b) := by
  refine ⟨fun bs => congrArg String.ofList (BitBuffer.letters_eq bs),
    fun text => BitBuffer.decodeBytes_eq (Bytes.ofText text),
    fun bs => ⟨decode_encode bs, length_encode bs⟩, fun text => decode_isOk,
    fun text bs hdecode => ?_, fun text => readRecordId_isOk, fun a b k l => key_eq_iff⟩
  have hreads := reads_of_decode hdecode
  have hspelled := hreads.spelled
  refine ⟨?_, ⟨fun h => ⟨bs, (toLower_encode bs).trans h⟩, ?_⟩,
    hspelled.surplus_of_encode, fun h => hreads.encode_eq h.1 h.2⟩
  · rw [hspelled.utf8ByteSize]
    exact hreads.length_eq
  · rintro ⟨bs', hwritten⟩
    rw [toLower_encode] at hwritten
    obtain ⟨hshort, hzero⟩ := hspelled.surplus_of_encode hwritten
    exact hreads.encode_eq hshort hzero

/-- Neither case nor the lower bits of the last letter make a difference. -/
example : ["yyyyyyyyyyyyyyyyyyyyyyyyyyyyyyyyyyyyyyyyyyyyyyyyyyyy",
    "YYYYYYYYYYYYYYYYYYYYYYYYYYYYYYYYYYYYYYYYYYYYYYYYYYYx"].map
      (fun text => (readRecordId text).toOption) = [some (.zero 32), some (.zero 32)] := by
  decide +kernel

end ZBase32

end SignedRecords
