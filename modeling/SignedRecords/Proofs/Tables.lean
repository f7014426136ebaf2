import Mathlib.Data.List.Nodup
import SignedRecords.Store.Table

/-!
# Laws of ordered tables

A table is what it answers: the value of a key is the row of the key, and two tables that answer
alike are one. Changing every value of a table in the same way goes together with reading, writing
and scanning it.

Main statements: `get?_eq_some`, `ext_get?` and `map_insert`.
-/

namespace SignedRecords.Table

variable {α β : Type}

/-! ## 1. Rows -/

theorem keys_nodup (t : Table α) : (t.rows.map (·.1)).Nodup := by
  rw [List.nodup_iff_pairwise_ne, List.pairwise_map]
  refine t.ascending.imp ?_
  rintro a b hlt heq
  rw [heq] at hlt
  exact List.lt_irrefl _ hlt

theorem find?_eq_some_of_mem {rows : List (Bytes × α)} (h : (rows.map (·.1)).Nodup)
    {row : Bytes × α} (hrow : row ∈ rows) : rows.find? (·.1 == row.1) = some row := by
  induction rows with
  | nil => cases hrow
  | cons first rest ih =>
    rw [List.map_cons, List.nodup_cons] at h
    rcases List.mem_cons.1 hrow with rfl | hrest
    · simp
    · have hne : first.1 ≠ row.1 := fun e => h.1 (e ▸ List.mem_map_of_mem hrest)
      rw [List.find?_cons, beq_eq_false_iff_ne.2 hne]
      exact ih h.2 hrest

/-- The value of a key is the one in its row. -/
theorem get?_eq_some {t : Table α} {key : Bytes} {value : α} :
    t.get? key = some value ↔ (key, value) ∈ t.rows := by
  constructor
  · intro h
    obtain ⟨row, hrow, rfl⟩ := Option.map_eq_some_iff.1 h
    have hkey : row.1 = key := by simpa using List.find?_some hrow
    rw [← hkey]
    exact List.mem_of_find?_eq_some hrow
  · intro h
    rw [get?, find?_eq_some_of_mem t.keys_nodup h]
    rfl

theorem ext {t u : Table α} (h : t.rows = u.rows) : t = u := by
  cases t
  cases u
  cases h
  rfl

/-- Tables that answer alike are one: the order of the rows is fixed. -/
theorem ext_get? {t u : Table α} (h : ∀ key, t.get? key = u.get? key) : t = u := by
  have hmem : ∀ row, row ∈ t.rows ↔ row ∈ u.rows := by
    rintro ⟨key, value⟩
    rw [← get?_eq_some, h, get?_eq_some]
  have hperm : t.rows.Perm u.rows :=
    (List.perm_ext_iff_of_nodup (t.keys_nodup.of_map _) (u.keys_nodup.of_map _)).2 hmem
  refine ext (hperm.eq_of_pairwise ?_ t.ascending u.ascending)
  intro a b _ _ hab hba
  exact absurd (List.lt_trans hab hba) (List.lt_irrefl _)

theorem mem_insert {t : Table α} {key : Bytes} {value : α} {row : Bytes × α} :
    row ∈ (t.insert key value).rows ↔ row = (key, value) ∨ row.1 ≠ key ∧ row ∈ t.rows := by
  obtain ⟨k, v⟩ := row
  rw [← get?_eq_some, get?_insert, ← get?_eq_some]
  by_cases h : key = k
  · simp [h, eq_comm]
  · simp [h, eq_comm]

/-! ## 2. Rows after a key -/

/-- A key that comes after a bound; all keys do where there is none. -/
def Past (bound : Option Bytes) (key : Bytes) : Prop := ∀ b, bound = some b → b < key

theorem mem_after {t : Table α} {bound : Option Bytes} {row : Bytes × α} :
    row ∈ t.after bound ↔ row ∈ t.rows ∧ Past bound row.1 := by
  cases bound with
  | none => simp [after, Past]
  | some b => simp [after, Past]

theorem ascending_after (t : Table α) (bound : Option Bytes) :
    (t.after bound).Pairwise fun a b => a.1 < b.1 := by
  cases bound with
  | none => exact t.ascending
  | some b => exact t.ascending.sublist List.filter_sublist

/-! ## 3. Changing all values -/

/-- The table with every value changed. -/
def map (f : α → β) (t : Table α) : Table β :=
  ⟨t.rows.map fun row => (row.1, f row.2), List.pairwise_map.2 t.ascending⟩

@[simp] theorem map_empty (f : α → β) : (empty : Table α).map f = empty := rfl

theorem rows_map (f : α → β) (t : Table α) :
    (t.map f).rows = t.rows.map fun row => (row.1, f row.2) := rfl

theorem size_map (f : α → β) (t : Table α) : (t.map f).size = t.size := List.length_map _

theorem get?_map (f : α → β) (t : Table α) (key : Bytes) :
    (t.map f).get? key = (t.get? key).map f := by
  rw [get?, get?, rows_map, List.find?_map, Option.map_map, Option.map_map]
  rfl

theorem after_map (f : α → β) (t : Table α) (bound : Option Bytes) :
    (t.map f).after bound = (t.after bound).map fun row => (row.1, f row.2) := by
  cases bound with
  | none => rfl
  | some b => exact List.filter_map

/-- Writing a changed value is changing the written one. -/
theorem map_insert (f : α → β) (t : Table α) (key : Bytes) (value : α) :
    (t.insert key value).map f = (t.map f).insert key (f value) := by
  refine ext_get? fun k => ?_
  rw [get?_map, get?_insert, get?_insert, get?_map]
  split <;> rfl

end SignedRecords.Table
