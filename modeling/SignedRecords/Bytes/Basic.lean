/-!
# Octet strings

Everything the library hashes, signs, stores or sends is a list of octets.

* `Bytes` is a list of octets of any length.
* `Octets n` is a list of exactly `n` octets: keys, signatures and addresses have a fixed width,
  and the width is part of the type.
* `Bytes.ofText` is the UTF-8 form of a text.
-/

namespace SignedRecords

/-- A string of octets. -/
abbrev Bytes := List UInt8

/-- The UTF-8 form of a text. -/
def Bytes.ofText (text : String) : Bytes := text.toUTF8.data.toList

/-- Exactly `n` octets. -/
structure Octets (n : Nat) where
  /-- The octets, first one first. -/
  toList : Bytes
  /-- Their number is the width. -/
  length_eq : toList.length = n
  deriving DecidableEq

namespace Octets

/-- Reads a list of the right length as a fixed-width string. -/
def ofBytes? (n : Nat) (bs : Bytes) : Option (Octets n) :=
  if h : bs.length = n then some ⟨bs, h⟩ else none

/-- `n` zero octets. -/
def zero (n : Nat) : Octets n := ⟨List.replicate n 0, List.length_replicate⟩

instance (n : Nat) : Inhabited (Octets n) := ⟨zero n⟩

theorem ext {n : Nat} {a b : Octets n} (h : a.toList = b.toList) : a = b := by
  cases a
  cases b
  cases h
  rfl

theorem ofBytes?_toList {n : Nat} (a : Octets n) : ofBytes? n a.toList = some a := by
  simp [ofBytes?, a.length_eq]

theorem ofBytes?_eq_none {n : Nat} {bs : Bytes} (h : bs.length ≠ n) : ofBytes? n bs = none := by
  simp [ofBytes?, h]

/-- Only a list of the right length reads, and it reads as itself. -/
theorem ofBytes?_eq_some {n : Nat} {bs : Bytes} {a : Octets n} :
    ofBytes? n bs = some a ↔ bs = a.toList := by
  constructor
  · intro h
    unfold ofBytes? at h
    split at h
    · cases h
      rfl
    · cases h
  · rintro rfl
    exact ofBytes?_toList a

end Octets

end SignedRecords
