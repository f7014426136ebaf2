import SignedRecords.Text.Utf8

/-!
# Texts and their octets

A text is determined by its UTF-8 form, and both readings of the form give the text back. Of ASCII
characters the form is one octet each.
-/

namespace SignedRecords

/-- The UTF-8 form determines the text. -/
theorem Bytes.ofText_inj {a b : String} : Bytes.ofText a = Bytes.ofText b ↔ a = b := by
  constructor
  · intro h
    have hd : a.toByteArray.data = b.toByteArray.data := by
      simpa [Bytes.ofText] using h
    exact String.toByteArray_inj.1 (ByteArray.ext hd)
  · rintro rfl
    rfl

theorem utf8EncodeChar_ascii {c : Char} (h : c.toNat < 128) :
    String.utf8EncodeChar c = [UInt8.ofNat c.toNat] := by
  have hc : c.val ≤ 0x7F := UInt32.le_iff_toNat_le.2 (Nat.le_of_lt_succ h)
  have hs : c.utf8Size = 1 := by simp [Char.utf8Size, hc]
  rw [String.utf8EncodeChar_eq_singleton hs]
  rfl

/-- The form of ASCII characters. -/
theorem Bytes.ofText_ascii (cs : List Char) (h : ∀ c ∈ cs, c.toNat < 128) :
    Bytes.ofText (String.ofList cs) = cs.map fun c => UInt8.ofNat c.toNat := by
  have he : cs.flatMap String.utf8EncodeChar = cs.map fun c => UInt8.ofNat c.toNat := by
    induction cs with
    | nil => rfl
    | cons c rest ih =>
      rw [List.flatMap_cons, utf8EncodeChar_ascii (h c List.mem_cons_self),
        ih fun d hd => h d (List.mem_cons_of_mem _ hd)]
      rfl
  rw [Bytes.ofText, String.toUTF8_eq_toByteArray, String.toByteArray_ofList, List.utf8Encode,
    List.toList_data_toByteArray, he]

theorem fromUTF8?_ofText (text : String) :
    String.fromUTF8? ⟨(Bytes.ofText text).toArray⟩ = some text := by
  have hb : (⟨(Bytes.ofText text).toArray⟩ : ByteArray) = text.toByteArray := by
    apply ByteArray.ext
    simp [Bytes.ofText]
  rw [hb, String.fromUTF8?, dif_pos text.isValidUTF8]
  rfl

/-- Reading without refusal gives back a text whose form it reads. -/
theorem Utf8.lossy_ofText (text : String) : Utf8.lossy (Bytes.ofText text) = text := by
  rw [Utf8.lossy, fromUTF8?_ofText]

end SignedRecords
