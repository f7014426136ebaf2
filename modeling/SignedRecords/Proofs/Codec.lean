import SignedRecords.Dht.Message.Codec
import SignedRecords.Proofs.Text
import SignedRecords.Proofs.Wire

/-!
# Fields read back

A reader of the message layout takes what its writer wrote and leaves what follows.
-/

namespace SignedRecords

/-- The UTF-8 form of a text is read as the text. -/
theorem Utf8.decode_ofText (text : String) : Utf8.decode (Bytes.ofText text) = .ok text := by
  rw [Utf8.decode, fromUTF8?_ofText]

namespace Codec

/-- After a part that reads, the next part reads what the first one left. -/
theorem run_bind_of_ok {α β : Type} {read : Reader α} {next : α → Reader β} {bs rest : Bytes}
    {a : α} (h : read.run bs = .ok (a, rest)) : (read >>= next).run bs = (next a).run rest := by
  rw [StateT.run_bind, h]
  rfl

theorem run_takeOctets {n : Nat} (octets : Octets n) (rest : Bytes) :
    (takeOctets n).run (octets.toList ++ rest) = .ok (octets, rest) := by
  have hlen : n ≤ (octets.toList ++ rest).length := by
    rw [List.length_append, octets.length_eq]
    exact Nat.le_add_right _ _
  show takeOctets n (octets.toList ++ rest) = _
  rw [takeOctets, dif_pos hlen]
  congr 2
  · exact Octets.ext (List.take_left' octets.length_eq)
  · exact List.drop_left' octets.length_eq

/-- A number is read back up to what its width can write. -/
theorem run_readNumber (width n : Nat) (rest : Bytes) :
    (readNumber width).run (Bytes.littleEndian width n ++ rest) =
      .ok (n % Bytes.span width, rest) := by
  have htake := run_takeOctets ⟨_, Bytes.length_littleEndian width n⟩ rest
  rw [readNumber, StateT.run_map, htake, ← Bytes.ofLittleEndian_littleEndian]
  rfl

/-- A text is read back if a word can tell its length. -/
theorem run_readText {text : String} (h : (Bytes.ofText text).length < Bytes.span 8)
    (rest : Bytes) : readText.run (writeText text ++ rest) = .ok (text, rest) := by
  have hword : readWord.run (writeText text ++ rest) =
      .ok ((Bytes.ofText text).length, Bytes.ofText text ++ rest) := by
    rw [readWord, writeText, writeOctets, writeWord, List.append_assoc, run_readNumber,
      Nat.mod_eq_of_lt h]
  have hget : (get : Reader Bytes).run (Bytes.ofText text ++ rest) =
      .ok (Bytes.ofText text ++ rest, Bytes.ofText text ++ rest) := rfl
  have hfits : ¬ (Bytes.ofText text ++ rest).length < (Bytes.ofText text).length := by
    rw [List.length_append]
    omega
  have htake := run_takeOctets ⟨Bytes.ofText text, rfl⟩ rest
  rw [readText, run_bind_of_ok hword, run_bind_of_ok hget, if_neg hfits, run_bind_of_ok htake]
  simp only [Utf8.decode_ofText]
  rfl

end Codec

end SignedRecords
