import Mathlib.Tactic.SplitIfs
import SignedRecords.Proofs.ZBase32

/-!
# Octets read as text without refusal

A token is the text of a key, and a key that is no text loses something on the way. Its ASCII
beginning stays: where the key goes on with an octet that is no ASCII, so does the form of its
text. So a key and the form of its text compare alike with everything that is ASCII, and only keys
that are ASCII throughout can be read as ids.

Between keys that are no ASCII nothing of the kind holds: the replacement character has the form
`EF BF BD`, and an octet `FF` is replaced by something smaller.

Main statements: `Utf8.sameAscii_lossy` and `ascii_of_readRecordId`.
-/

namespace SignedRecords

/-! ## 1. The same ASCII beginning -/

/-- All octets are ASCII. -/
def Bytes.Ascii (bs : Bytes) : Prop := ∀ b ∈ bs, b.toNat < 128

/-- Two strings of octets have the same ASCII beginning, and after it both end or both go on with
    an octet that is no ASCII. -/
inductive SameAscii : Bytes → Bytes → Prop where
  | nil : SameAscii [] []
  | cons {b : UInt8} {k l : Bytes} (h : SameAscii k l) : SameAscii (b :: k) (b :: l)
  | beyond {a b : UInt8} {k l : Bytes} (ha : 128 ≤ a.toNat) (hb : 128 ≤ b.toNat) :
      SameAscii (a :: k) (b :: l)

namespace SameAscii

theorem rfl : (k : Bytes) → SameAscii k k
  | [] => .nil
  | _ :: rest => .cons (rfl rest)

variable {k l d : Bytes}

/-- A string of ASCII has no other beside it. -/
theorem eq_of_ascii (h : SameAscii k l) (hl : l.Ascii) : k = l := by
  induction h with
  | nil => exact Eq.refl []
  | cons h ih => rw [ih fun b hb => hl b (List.mem_cons_of_mem _ hb)]
  | beyond ha hb => exact absurd (hl _ List.mem_cons_self) (Nat.not_lt.2 hb)

/-- Both come before the same strings of ASCII. -/
theorem lt_iff (h : SameAscii k l) (hd : d.Ascii) : k < d ↔ l < d := by
  induction h generalizing d with
  | nil => exact Iff.rfl
  | cons h ih =>
    cases d with
    | nil => simp
    | cons c rest =>
      rw [List.cons_lt_cons_iff, List.cons_lt_cons_iff,
        ih fun b hb => hd b (List.mem_cons_of_mem _ hb)]
  | @beyond a b _ _ ha hb =>
    cases d with
    | nil => simp
    | cons c rest =>
      -- an ASCII octet comes before either of the others
      have hc : c.toNat < 128 := hd c List.mem_cons_self
      have hlt : ∀ o : UInt8, 128 ≤ o.toNat → ¬o < c ∧ o ≠ c := fun o ho =>
        ⟨fun h => by have := UInt8.lt_iff_toNat_lt.1 h; omega, fun h => by subst h; omega⟩
      simp [List.cons_lt_cons_iff, hlt a ha, hlt b hb]

end SameAscii

/-! ## 2. Forms of characters -/

/-- The form of a character that is no ASCII begins with an octet that is none. -/
theorem utf8EncodeChar_wide {c : Char} (h : 128 ≤ c.toNat) :
    ∃ b rest, String.utf8EncodeChar c = b :: rest ∧ 128 ≤ b.toNat := by
  have hsmall : ¬c.val.toNat ≤ 127 := Nat.not_le.2 (Nat.lt_of_succ_le h)
  unfold String.utf8EncodeChar
  simp only [hsmall, if_false]
  split
  · exact ⟨_, _, rfl, by simp only [UInt8.toNat_ofNat']; omega⟩
  split
  · exact ⟨_, _, rfl, by simp only [UInt8.toNat_ofNat']; omega⟩
  · exact ⟨_, _, rfl, by simp only [UInt8.toNat_ofNat']; omega⟩

theorem Bytes.ofText_ofList (cs : List Char) :
    Bytes.ofText (String.ofList cs) = cs.flatMap String.utf8EncodeChar := by
  rw [Bytes.ofText, String.toUTF8_eq_toByteArray, String.toByteArray_ofList, List.utf8Encode,
    List.toList_data_toByteArray]

/-- Octets that are the form of a text are the form of what they are read as. -/
theorem Bytes.ofText_of_fromUTF8? {bs : Bytes} {text : String}
    (h : String.fromUTF8? ⟨bs.toArray⟩ = some text) : Bytes.ofText text = bs := by
  unfold String.fromUTF8? at h
  split at h
  · cases h
    rfl
  · cases h

namespace Utf8

/-! ## 3. Characters that have begun -/

/-- The least number that a character can have, once it has begun. -/
def Begun.least (s : Begun) : Nat := (64 * s.value + (s.low - 0x80)) * 64 ^ (s.owed - 1)

/-- All numbers that it can have are below this one. -/
def Begun.limit (s : Begun) : Nat := (64 * s.value + (s.high - 0x80) + 1) * 64 ^ (s.owed - 1)

/-- However a character ends that has begun, it is one, and no ASCII. -/
structure Begun.Fits (s : Begun) : Prop where
  wide : 128 ≤ s.least
  scalar : s.limit ≤ 0xD800 ∨ 0xE000 ≤ s.least ∧ s.limit ≤ 0x110000

theorem lead_whole {b : Nat} {c : Char} (h : lead b = .whole c) : b < 128 ∧ c = Char.ofNat b := by
  unfold lead at h
  split_ifs at h with hb
  cases h
  exact ⟨Nat.lt_succ_of_le hb, rfl⟩

theorem lead_begun {b : Nat} {s : Begun} (h : lead b = .begun s) : 128 ≤ b ∧ s.Fits := by
  unfold lead at h
  split_ifs at h <;> cases h
  all_goals
    refine ⟨by omega, ?_, ?_⟩ <;> simp [Begun.least, Begun.limit] <;> omega

theorem lead_ill {b : Nat} (h : lead b = .ill) : 128 ≤ b := by
  unfold lead at h
  split_ifs at h with hb
  all_goals exact Nat.lt_of_not_le hb

variable {s : Begun} {b : Nat}

/-- The value after one more octet is one of those that were possible. -/
theorem Begun.value_next (hb : s.admits b = true) :
    64 * s.value + (s.low - 0x80) ≤ (s.next b).value ∧
      (s.next b).value + 1 ≤ 64 * s.value + (s.high - 0x80) + 1 := by
  obtain ⟨hlow, hhigh⟩ : s.low ≤ b ∧ b ≤ s.high := by simpa [Begun.admits] using hb
  simp only [Begun.next]
  omega

theorem Begun.least_next (s : Begun) (b : Nat) :
    (s.next b).least = 64 * (s.next b).value * 64 ^ (s.owed - 2) := by
  simp only [least, next, Nat.sub_self, Nat.add_zero, Nat.sub_sub]

theorem Begun.limit_next (s : Begun) (b : Nat) :
    (s.next b).limit = 64 * ((s.next b).value + 1) * 64 ^ (s.owed - 2) := by
  simp only [limit, next, Nat.sub_sub]
  congr 1

/-- One more octet, and others are still owed. -/
theorem Begun.Fits.next (h : s.Fits) (hb : s.admits b = true) (howed : ¬s.owed ≤ 1) :
    (s.next b).Fits := by
  obtain ⟨n, hn⟩ : ∃ n, s.owed = n + 2 := ⟨s.owed - 2, by omega⟩
  obtain ⟨hle, hlt⟩ := Begun.value_next hb
  have hpow : ∀ v, 64 * v * 64 ^ (s.owed - 2) = v * 64 ^ (s.owed - 1) := by
    intro v
    rw [hn, Nat.add_sub_cancel, Nat.add_sub_assoc (by decide), Nat.pow_succ, Nat.mul_comm 64 v,
      Nat.mul_assoc, Nat.mul_comm (64 ^ n)]
  have hmin : s.least ≤ (s.next b).least := by
    rw [Begun.least_next, hpow]
    exact Nat.mul_le_mul_right _ hle
  have hmax : (s.next b).limit ≤ s.limit := by
    rw [Begun.limit_next, hpow]
    exact Nat.mul_le_mul_right _ hlt
  obtain ⟨hwide, hscalar⟩ := h
  exact ⟨Nat.le_trans hwide hmin, by omega⟩

/-- The last octet gives a character, and no ASCII. -/
theorem Begun.Fits.char (h : s.Fits) (hb : s.admits b = true) (howed : s.owed ≤ 1) :
    128 ≤ (Char.ofNat (s.next b).value).toNat := by
  obtain ⟨hle, hlt⟩ := Begun.value_next hb
  obtain ⟨hwide, hscalar⟩ := h
  rw [Begun.least, Nat.sub_eq_zero_of_le howed, Nat.pow_zero, Nat.mul_one] at hwide hscalar
  rw [Begun.limit, Nat.sub_eq_zero_of_le howed, Nat.pow_zero, Nat.mul_one] at hscalar
  have hvalid : (s.next b).value.isValidChar := by
    unfold Nat.isValidChar
    omega
  rw [Char.ofNat, dif_pos hvalid]
  show 128 ≤ (s.next b).value
  omega

/-- Once a character has begun, what is read first is no ASCII. -/
theorem lossyFrom_some (rest : Bytes) (h : s.Fits) :
    ∃ c more, lossyFrom (some s) rest = c :: more ∧ 128 ≤ c.toNat := by
  induction rest generalizing s with
  | nil => exact ⟨replacement, [], rfl, by decide⟩
  | cons b rest ih =>
    unfold lossyFrom
    dsimp only
    split
    · rename_i hb
      split
      · rename_i howed
        exact ⟨_, _, rfl, h.char hb howed⟩
      · rename_i howed
        exact ih (h.next hb howed)
    · split <;> exact ⟨replacement, _, rfl, by decide⟩

/-! ## 4. Keys and their tokens -/

/-- What is read first from a string of octets has the form that begins as it does. -/
theorem sameAscii_lossyFrom (bs : Bytes) :
    SameAscii bs ((lossyFrom none bs).flatMap String.utf8EncodeChar) := by
  induction bs with
  | nil => exact .nil
  | cons b rest ih =>
    have hwide : ∀ {c : Char} {more : List Char}, 128 ≤ b.toNat → 128 ≤ c.toNat →
        SameAscii (b :: rest) ((c :: more).flatMap String.utf8EncodeChar) := by
      intro c more hb hc
      obtain ⟨o, os, hform, ho⟩ := utf8EncodeChar_wide hc
      rw [List.flatMap_cons, hform]
      exact .beyond hb ho
    unfold lossyFrom
    dsimp only
    split
    · rename_i c hlead
      obtain ⟨hb, rfl⟩ := lead_whole hlead
      have hvalid : b.toNat.isValidChar := .inl (by omega)
      have hc : (Char.ofNat b.toNat).toNat = b.toNat := by
        rw [Char.ofNat, dif_pos hvalid]
        rfl
      rw [List.nil_append, List.flatMap_cons, utf8EncodeChar_ascii (hc.symm ▸ hb), hc,
        UInt8.ofNat_toNat]
      exact .cons ih
    · rename_i s hlead
      obtain ⟨hb, hfits⟩ := lead_begun hlead
      obtain ⟨c, more, hread, hc⟩ := lossyFrom_some rest hfits
      rw [List.nil_append, hread]
      exact hwide hb hc
    · rename_i hlead
      exact hwide (lead_ill hlead) (by decide)

/-- A key and the form of its text have the same ASCII beginning. -/
theorem sameAscii_lossy (key : Bytes) : SameAscii key (Bytes.ofText (lossy key)) := by
  unfold lossy
  split
  · rename_i text htext
    rw [Bytes.ofText_of_fromUTF8? htext]
    exact .rfl key
  · rw [Bytes.ofText_ofList]
    exact sameAscii_lossyFrom key

end Utf8

/-! ## 5. Keys that name records -/

/-- A letter is ASCII. -/
theorem ZBase32.ascii_of_value? {b : UInt8} {v : Nat} (h : value? b = some v) : b.toNat < 128 := by
  obtain ⟨hv, hletter, -⟩ := List.findIdx?_eq_some_iff_getElem.1 h
  have hb : (lowered b).toNat < 128 := by
    rw [← of_decide_eq_true hletter]
    exact alphabet_ascii (List.getElem_mem hv)
  unfold lowered at hb
  split at hb
  · rename_i hcapital
    have := UInt8.le_iff_toNat_le.1 hcapital.2
    exact Nat.lt_of_le_of_lt this (by decide)
  · exact hb

theorem ZBase32.ascii_of_values {text : Bytes} {vs : List Nat} (h : values text = .ok vs) :
    text.Ascii := by
  intro b hb
  have hmem : value? b ∈ vs.map some := values_eq_ok.1 h ▸ List.mem_map_of_mem hb
  obtain ⟨v, -, hv⟩ := List.mem_map.1 hmem
  exact ascii_of_value? hv.symm

/-- Only ASCII names a key. -/
theorem ascii_of_readRecordId {text : String} {key : Octets 32}
    (h : readRecordId text = .ok key) : (Bytes.ofText text).Ascii := by
  have hdecode := decode_of_readRecordId h
  cases hvalues : ZBase32.values (Bytes.ofText text) with
  | error e => simp [ZBase32.decode, ZBase32.decodeBytes, hvalues, Except.map] at hdecode
  | ok vs => exact ZBase32.ascii_of_values hvalues

end SignedRecords
