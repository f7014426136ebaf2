import SignedRecords.Signable

/-!
# Decimal numbers and bencoded strings

A decimal number determines the number, and no digit of it is a colon. So a number and a colon can
be read off the front of any octets in one way at most, and so can a bencoded string.

Main statements: `append_cons_inj`, `decimal_colon_inj` and `bencode_append_inj`.
-/

namespace SignedRecords

/-! ## 1. Digits -/

theorem toNat_lt_of_isDigit {c : Char} (h : c.isDigit = true) : 48 ≤ c.toNat ∧ c.toNat ≤ 57 := by
  simp only [Char.isDigit, Bool.and_eq_true, decide_eq_true_eq] at h
  exact ⟨UInt32.le_iff_toNat_le.1 h.1, UInt32.le_iff_toNat_le.1 h.2⟩

theorem toNat_of_mem_toDigits {n : Nat} {c : Char} (h : c ∈ Nat.toDigits 10 n) :
    48 ≤ c.toNat ∧ c.toNat ≤ 57 :=
  toNat_lt_of_isDigit (Nat.isDigit_of_mem_toDigits (by decide) (by decide) h)

/-- A decimal number has no other octets than digits. -/
theorem not_mem_decimal {b : UInt8} (h : b.toNat < 48 ∨ 57 < b.toNat) (n : Nat) :
    b ∉ decimal n := by
  intro hb
  obtain ⟨c, hc, rfl⟩ := List.mem_map.1 hb
  obtain ⟨hlow, hhigh⟩ := toNat_of_mem_toDigits hc
  rw [UInt8.toNat_ofNat', Nat.mod_eq_of_lt (by omega)] at h
  omega

/-- The digits are read back from their octets. -/
theorem map_decimal (n : Nat) :
    (decimal n).map (fun b => Char.ofNat b.toNat) = Nat.toDigits 10 n := by
  unfold decimal
  rw [List.map_map]
  refine (List.map_congr_left fun c hc => ?_).trans (List.map_id _)
  obtain ⟨-, hhigh⟩ := toNat_of_mem_toDigits hc
  simp only [Function.comp_apply, UInt8.toNat_ofNat', id_eq]
  rw [Nat.mod_eq_of_lt (by omega), Char.ofNat_toNat]

theorem decimal_inj {m n : Nat} (h : decimal m = decimal n) : m = n := by
  have hdigits : Nat.toDigits 10 m = Nat.toDigits 10 n := by
    rw [← map_decimal, h, map_decimal]
  rw [← Nat.ofDigitChars_ten_toDigits (n := m), hdigits, Nat.ofDigitChars_ten_toDigits]

/-- A number below a power of ten has no more digits than the power. -/
theorem length_decimal_le {n digits : Nat} (h : 0 < digits) :
    (decimal n).length ≤ digits ↔ n < Nat.pow 10 digits := by
  unfold decimal
  rw [List.length_map]
  exact Nat.length_toDigits_le_iff (by decide) h

/-! ## 2. A number and a colon -/

/-- What stands before the first of some octet and what stands after it are determined by the
    whole. -/
theorem append_cons_inj {mark : UInt8} {a b rest rest' : Bytes} (ha : mark ∉ a) (hb : mark ∉ b)
    (h : a ++ mark :: rest = b ++ mark :: rest') : a = b ∧ rest = rest' := by
  have hfront : ∀ {a : Bytes}, mark ∉ a → ∀ rest : Bytes,
      (a ++ mark :: rest).takeWhile (· != mark) = a := by
    intro a ha rest
    rw [List.takeWhile_append_of_pos]
    · simp
    · intro x hx
      rw [bne_iff_ne]
      rintro rfl
      exact ha hx
  obtain rfl : a = b := by rw [← hfront ha rest, h, hfront hb]
  exact ⟨rfl, (List.cons.inj (List.append_cancel_left h)).2⟩

/-- A number and the octets after its colon are determined by all of them. -/
theorem decimal_colon_inj {m n : Nat} {rest rest' : Bytes}
    (h : decimal m ++ 58 :: rest = decimal n ++ 58 :: rest') : m = n ∧ rest = rest' := by
  obtain ⟨hdecimal, hrest⟩ :=
    append_cons_inj (not_mem_decimal (by decide) m) (not_mem_decimal (by decide) n) h
  exact ⟨decimal_inj hdecimal, hrest⟩

/-- A bencoded string can be read off the front of any octets in one way at most. -/
theorem bencode_append_inj {a b rest rest' : Bytes}
    (h : bencode a ++ rest = bencode b ++ rest') : a = b ∧ rest = rest' := by
  unfold bencode at h
  rw [List.append_assoc, List.append_assoc, List.cons_append, List.cons_append] at h
  obtain ⟨hlength, htail⟩ := decimal_colon_inj h
  exact List.append_inj htail hlength

theorem bencode_inj {a b : Bytes} (h : bencode a = bencode b) : a = b := by
  have hboth : bencode a ++ [] = bencode b ++ [] := congrArg (· ++ []) h
  exact (bencode_append_inj hboth).1

theorem length_bencode (value : Bytes) :
    (bencode value).length = (decimal value.length).length + 1 + value.length := by
  rw [bencode, List.length_append, List.length_cons]
  omega

end SignedRecords
