import SignedRecords.Proofs.Wire
import SignedRecords.Proofs.ZBase32
import SignedRecords.Store.Basic

/-!
# What a write leaves in a store

A write that succeeds found no other record with as high a sequence number under the id, leaves the
record there, and leaves all other ids alone. This holds for both kinds of store and for any
content, also for rows that do not read.

Main statements: `Store.read_of_write` and `Store.holds_of_write`.
-/

namespace SignedRecords

/-! ## 1. Arbitration -/

/-- What is written over is older, and what is kept is the record itself. -/
theorem arbitrate_eq_ok {stored : Option Record} {r : Record} {replaces : Bool}
    (h : arbitrate stored r = .ok replaces) :
    (∀ c, stored = some c → c = r ∨ c.sequence < r.sequence) ∧
      (replaces = false → stored = some r) := by
  unfold arbitrate at h
  split at h
  · cases h
    exact ⟨fun c hc => (nomatch hc), fun hf => (nomatch hf)⟩
  · rename_i current
    split at h
    · rename_i heq
      subst heq
      exact ⟨fun c hc => .inl (Option.some.inj hc).symm, fun _ => rfl⟩
    · split at h
      · cases h
      · rename_i hlt
        cases h
        refine ⟨fun c hc => .inr ?_, fun hf => (nomatch hf)⟩
        rw [← Option.some.inj hc]
        exact Int64.not_le.1 hlt

/-- What is stored is kept exactly when it is the record itself. -/
theorem arbitrate_eq_false {stored : Option Record} {r : Record} :
    arbitrate stored r = .ok false ↔ stored = some r := by
  constructor
  · intro h
    exact (arbitrate_eq_ok h).2 rfl
  · rintro rfl
    simp [arbitrate]

/-- What is stored is written over exactly when it is older. -/
theorem arbitrate_eq_true {stored : Option Record} {r : Record} :
    arbitrate stored r = .ok true ↔ ∀ c, stored = some c → c.sequence < r.sequence := by
  cases stored with
  | none => simp [arbitrate]
  | some c =>
    by_cases heq : c = r
    · subst heq
      simp [arbitrate]
    · by_cases hle : r.sequence ≤ c.sequence
      · simp [arbitrate, heq, hle, Int64.not_lt]
      · simp [arbitrate, heq, hle, Int64.not_le.1 hle]

/-- A record is refused exactly for another one that is not older. -/
theorem arbitrate_eq_error {stored : Option Record} {r : Record} {e : StoreError} :
    arbitrate stored r = .error e ↔ ∃ c, stored = some c ∧ c ≠ r ∧ r.sequence ≤ c.sequence ∧
      e = .staleSequence c.sequence r.sequence := by
  cases stored with
  | none => simp [arbitrate]
  | some c =>
    by_cases heq : c = r
    · simp [arbitrate, heq]
    · by_cases hle : r.sequence ≤ c.sequence
      · rw [arbitrate, if_neg heq, if_pos hle]
        constructor
        · rintro ⟨⟩
          exact ⟨c, rfl, heq, hle, rfl⟩
        · rintro ⟨_, ⟨⟩, -, -, rfl⟩
          rfl
      · simp [arbitrate, heq, hle]

/-! ## 2. Stores in memory -/

namespace MemoryStore

theorem read_of_write {s s' : MemoryStore} {r : Record} (h : s.write r = .ok s') (id : String) :
    s'.read id = if id = r.id then some r else s.read id := by
  simp only [write] at h
  split at h
  · cases h
  · rename_i harb
    cases h
    have hkept := (arbitrate_eq_ok harb).2 rfl
    split
    · rename_i hid
      rw [hid]
      exact hkept
    · rfl
  · cases h
    by_cases hid : id = r.id
    · rw [if_pos hid, hid, read, Table.get?_insert, if_pos rfl]
    · have hkey : Bytes.ofText r.id ≠ Bytes.ofText id := fun e => hid (Bytes.ofText_inj.1 e).symm
      rw [if_neg hid, read, Table.get?_insert, if_neg hkey]
      rfl

theorem write_newest {s s' : MemoryStore} {r c : Record} (h : s.write r = .ok s')
    (hc : s.read r.id = some c) : c = r ∨ c.sequence < r.sequence := by
  simp only [write] at h
  split at h
  · cases h
  · rename_i harb
    exact (arbitrate_eq_ok harb).1 c hc
  · rename_i harb
    exact (arbitrate_eq_ok harb).1 c hc

end MemoryStore

/-! ## 3. Stores of rows -/

namespace RowStore

/-- The row of a valid record reads as the record. -/
theorem readRow_toWire {r : Record} (h : r.validate = .ok ()) :
    readRow (Bytes.ofText r.id) r.toWire = .ok r := by
  simp only [readRow, Utf8.lossy_ofText, Record.id, readRecordId_recordId, Record.ofWire_toWire h]

theorem read_of_write {s s' : RowStore} {r : Record} (h : s.write r = .ok s')
    (hv : r.validate = .ok ()) (id : String) :
    s'.read id = if id = r.id then .ok (some r) else s.read id := by
  simp only [write] at h
  split at h
  · cases h
  · rename_i stored hstored
    split at h
    · cases h
    · rename_i harb
      cases h
      have hkept := (arbitrate_eq_ok harb).2 rfl
      split
      · rename_i hid
        rw [hid, read, hstored, hkept]
      · rfl
    · cases h
      by_cases hid : id = r.id
      · rw [if_pos hid, hid, read, readKey, Table.get?_insert, if_pos rfl]
        simp only [readRow_toWire hv]
        rfl
      · have hkey : Bytes.ofText r.id ≠ Bytes.ofText id := fun e => hid (Bytes.ofText_inj.1 e).symm
        rw [if_neg hid, read, readKey, Table.get?_insert, if_neg hkey]
        rfl

theorem write_newest {s s' : RowStore} {r c : Record} (h : s.write r = .ok s')
    (hc : s.read r.id = .ok (some c)) : c = r ∨ c.sequence < r.sequence := by
  simp only [write] at h
  split at h
  · cases h
  · rename_i stored hstored
    have heq : stored = some c := by
      rw [read, hstored] at hc
      exact Except.ok.inj hc
    split at h
    · cases h
    · rename_i harb
      exact (arbitrate_eq_ok harb).1 c heq
    · rename_i harb
      exact (arbitrate_eq_ok harb).1 c heq

end RowStore

/-! ## 4. Both kinds -/

namespace Store

/-- After a write the record is there, and nothing else has changed. -/
theorem read_of_write {s s' : Store} {r : Record} (h : s.write r = .ok s')
    (hv : r.validate = .ok ()) (id : String) :
    s'.read id = if id = r.id then .ok (some r) else s.read id := by
  cases s with
  | memory m =>
    simp only [write] at h
    cases hm : m.write r with
    | error e =>
      rw [hm] at h
      cases h
    | ok m' =>
      rw [hm] at h
      cases h
      simp only [read, MemoryStore.read_of_write hm id]
      split <;> rfl
  | rows t =>
    simp only [write] at h
    cases ht : t.write r with
    | error e =>
      rw [ht] at h
      cases h
    | ok t' =>
      rw [ht] at h
      cases h
      exact RowStore.read_of_write ht hv id

/-- A write succeeds only over the record itself or an older one. -/
theorem write_newest {s s' : Store} {r c : Record} (h : s.write r = .ok s')
    (hc : s.read r.id = .ok (some c)) : c = r ∨ c.sequence < r.sequence := by
  cases s with
  | memory m =>
    simp only [write] at h
    cases hm : m.write r with
    | error e =>
      rw [hm] at h
      cases h
    | ok m' => exact MemoryStore.write_newest hm (Except.ok.inj hc)
  | rows t =>
    simp only [write] at h
    cases ht : t.write r with
    | error e =>
      rw [ht] at h
      cases h
    | ok t' => exact RowStore.write_newest ht hc

/-- The store answers for an id with a record whose sequence number is at least `n`. -/
def Holds (s : Store) (id : String) (n : Sequence) : Prop :=
  ∃ r, s.read id = .ok (some r) ∧ n ≤ r.sequence

theorem not_holds_empty (id : String) (n : Sequence) : ¬ (memory .empty).Holds id n := by
  rintro ⟨r, hr, -⟩
  have hnone : (memory .empty).read id = .ok none := rfl
  rw [hnone] at hr
  cases hr

/-- A record that can be written is at least as new as all that the store holds for its id. -/
theorem Holds.le_of_write {s s' : Store} {r : Record} {n : Sequence} (h : s.Holds r.id n)
    (hw : s.write r = .ok s') : n ≤ r.sequence := by
  obtain ⟨c, hc, hn⟩ := h
  rcases write_newest hw hc with rfl | hlt
  · exact hn
  · exact Int64.le_trans hn (Int64.le_of_lt hlt)

/-- What a store holds after a write: what it held, and the record. -/
theorem holds_of_write {s s' : Store} {r : Record} (hw : s.write r = .ok s')
    (hv : r.validate = .ok ()) (id : String) (n : Sequence) :
    s'.Holds id n ↔ s.Holds id n ∨ (id = r.id ∧ n ≤ r.sequence) := by
  by_cases hid : id = r.id
  · subst hid
    have hread : s'.read r.id = .ok (some r) := by
      rw [read_of_write hw hv, if_pos rfl]
    constructor
    · rintro ⟨c, hc, hn⟩
      rw [hread] at hc
      cases hc
      exact .inr ⟨rfl, hn⟩
    · rintro (h | ⟨-, hn⟩)
      · exact ⟨r, hread, h.le_of_write hw⟩
      · exact ⟨r, hread, hn⟩
  · have hread : s'.read id = s.read id := by
      rw [read_of_write hw hv, if_neg hid]
    simp only [Holds, hread, hid, false_and, or_false]

end Store

end SignedRecords
