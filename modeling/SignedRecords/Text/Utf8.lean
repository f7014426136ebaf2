import SignedRecords.Bytes.Basic

/-!
# UTF-8 text

Reading octets as text, in two ways.

* `Utf8.decode` refuses octets that are no UTF-8 and says where: at the first character that is
  ill-formed, with the number of octets that rule it out, or at a character that the end cuts off.
* `Utf8.lossy` never refuses: each ill-formed run becomes the replacement character U+FFFD.

A run ends at the first octet that no well-formed character could have there; that octet then
starts the next character.
-/

namespace SignedRecords.Utf8

/-! ## 1. The machine over octets -/

/-- A character that has begun: the octets still owed, the range of the next one, and the value
    so far. -/
structure Begun where
  owed : Nat
  low : Nat
  high : Nat
  value : Nat

/-- What an octet is when it stands first. -/
inductive Lead where
  /-- A character of its own. -/
  | whole (c : Char)
  /-- The first octet of a longer character. -/
  | begun (b : Begun)
  /-- No first octet. -/
  | ill

/-- Reads an octet as the first of a character. -/
def lead (b : Nat) : Lead :=
  if b ≤ 0x7F then .whole (Char.ofNat b)
  else if 0xC2 ≤ b ∧ b ≤ 0xDF then .begun ⟨1, 0x80, 0xBF, b - 0xC0⟩
  else if b = 0xE0 then .begun ⟨2, 0xA0, 0xBF, 0⟩
  else if b = 0xED then .begun ⟨2, 0x80, 0x9F, 0xD⟩
  else if 0xE1 ≤ b ∧ b ≤ 0xEF then .begun ⟨2, 0x80, 0xBF, b - 0xE0⟩
  else if b = 0xF0 then .begun ⟨3, 0x90, 0xBF, 0⟩
  else if 0xF1 ≤ b ∧ b ≤ 0xF3 then .begun ⟨3, 0x80, 0xBF, b - 0xF0⟩
  else if b = 0xF4 then .begun ⟨3, 0x80, 0x8F, 4⟩
  else .ill

/-- Whether an octet may come next in a character. -/
def Begun.admits (s : Begun) (b : Nat) : Bool := s.low ≤ b && b ≤ s.high

/-- The character after one more octet. -/
def Begun.next (s : Begun) (b : Nat) : Begun :=
  ⟨s.owed - 1, 0x80, 0xBF, 64 * s.value + (b - 0x80)⟩

/-! ## 2. The first fault -/

/-- Where octets stop being UTF-8. -/
structure Fault where
  /-- The position of the first character that is none. -/
  index : Nat
  /-- The octets that rule it out; nothing when the end cuts the character off. -/
  length : Option Nat
  deriving DecidableEq, Repr

/-- The wording of a fault. -/
def Fault.message (f : Fault) : String :=
  match f.length with
  | some n => s!"invalid utf-8 sequence of {n} bytes from index {f.index}"
  | none => s!"incomplete utf-8 byte sequence from index {f.index}"

/-- The first fault at or after position `i`; `begun` is a character that began at `start`. -/
def faultFrom (i start : Nat) (begun : Option Begun) : Bytes → Option Fault
  | [] => begun.map fun _ => ⟨start, none⟩
  | b :: rest =>
    match begun with
    | none =>
      match lead b.toNat with
      | .whole _ => faultFrom (i + 1) (i + 1) none rest
      | .begun s => faultFrom (i + 1) i (some s) rest
      | .ill => some ⟨i, some 1⟩
    | some s =>
      if s.admits b.toNat then
        faultFrom (i + 1) start (if s.owed ≤ 1 then none else some (s.next b.toNat)) rest
      else some ⟨start, some (i - start)⟩

/-- The first fault of a string of octets. -/
def fault (bs : Bytes) : Option Fault := faultFrom 0 0 none bs

/-! ## 3. Reading -/

/-- The text that octets are the UTF-8 form of. -/
def decode (bs : Bytes) : Except Fault String :=
  match String.fromUTF8? ⟨bs.toArray⟩ with
  | some text => .ok text
  | none => .error ((fault bs).getD ⟨0, none⟩)

/-- Stands for octets that are no text. -/
def replacement : Char := '\uFFFD'

/-- The characters of a string of octets, with a replacement for each ill-formed run. -/
def lossyFrom (begun : Option Begun) : Bytes → List Char
  | [] => if begun.isSome then [replacement] else []
  | b :: rest =>
    let fresh (before : List Char) : List Char :=
      match lead b.toNat with
      | .whole c => before ++ c :: lossyFrom none rest
      | .begun s => before ++ lossyFrom (some s) rest
      | .ill => before ++ replacement :: lossyFrom none rest
    match begun with
    | none => fresh []
    | some s =>
      if s.admits b.toNat then
        let s' := s.next b.toNat
        if s.owed ≤ 1 then Char.ofNat s'.value :: lossyFrom none rest
        else lossyFrom (some s') rest
      else fresh [replacement]

/-- Reads octets as text; what is no text is replaced. -/
def lossy (bs : Bytes) : String :=
  match String.fromUTF8? ⟨bs.toArray⟩ with
  | some text => text
  | none => String.ofList (lossyFrom none bs)

end SignedRecords.Utf8
