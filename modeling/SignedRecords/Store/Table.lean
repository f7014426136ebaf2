import SignedRecords.Bytes.Basic

/-!
# Ordered tables

Rows under octet strings, in increasing order of the keys (octet by octet), each key once. This is
what both kinds of record store keep: reading, writing, and scanning the rows after a key.

Main statements: `get?_insert` says what a write changes, and `keys_insert` that it adds its key
and no other.
-/

namespace SignedRecords

/-- Rows in increasing order of their keys. -/
structure Table (α : Type) where
  rows : List (Bytes × α)
  ascending : rows.Pairwise fun a b => a.1 < b.1

namespace Table

variable {α : Type}

/-- A table without rows. -/
def empty : Table α := ⟨[], .nil⟩

instance : Inhabited (Table α) := ⟨empty⟩

/-! ## 1. Reading -/

/-- The value of a key. -/
def get? (t : Table α) (key : Bytes) : Option α := (t.rows.find? (·.1 == key)).map (·.2)

/-- The number of rows. -/
def size (t : Table α) : Nat := t.rows.length

/-- The rows after a key, or all rows. -/
def after (t : Table α) : Option Bytes → List (Bytes × α)
  | none => t.rows
  | some key => t.rows.filter fun row => key < row.1

/-! ## 2. Writing -/

/-- Puts a row at its place, instead of the one with its key if there is one. -/
def insertRow (key : Bytes) (value : α) : List (Bytes × α) → List (Bytes × α)
  | [] => [(key, value)]
  | row :: rest =>
    if key < row.1 then (key, value) :: row :: rest
    else if key = row.1 then (key, value) :: rest
    else row :: insertRow key value rest

theorem mem_insertRow {key : Bytes} {value : α} {rows : List (Bytes × α)} {row : Bytes × α}
    (h : row ∈ insertRow key value rows) : row = (key, value) ∨ row ∈ rows := by
  induction rows with
  | nil => simpa [insertRow] using h
  | cons first rest ih =>
    unfold insertRow at h
    split at h
    · simpa using h
    · split at h
      · rcases List.mem_cons.1 h with h | h
        · exact .inl h
        · exact .inr (List.mem_cons_of_mem _ h)
      · rcases List.mem_cons.1 h with h | h
        · exact .inr (h ▸ List.mem_cons_self)
        · exact (ih h).imp id (List.mem_cons_of_mem _)

theorem ascending_insertRow (key : Bytes) (value : α) {rows : List (Bytes × α)}
    (h : rows.Pairwise fun a b => a.1 < b.1) :
    (insertRow key value rows).Pairwise fun a b => a.1 < b.1 := by
  induction rows with
  | nil => simp [insertRow]
  | cons first rest ih =>
    have hrest := (List.pairwise_cons.1 h).2
    have hfirst := (List.pairwise_cons.1 h).1
    unfold insertRow
    split
    · rename_i hlt
      refine List.pairwise_cons.2 ⟨?_, h⟩
      intro row hrow
      rcases List.mem_cons.1 hrow with rfl | hrow
      · exact hlt
      · exact List.lt_trans hlt (hfirst row hrow)
    · rename_i hnlt
      split
      · rename_i heq
        refine List.pairwise_cons.2 ⟨?_, hrest⟩
        intro row hrow
        exact heq ▸ hfirst row hrow
      · rename_i hne
        refine List.pairwise_cons.2 ⟨?_, ih hrest⟩
        intro row hrow
        rcases mem_insertRow hrow with rfl | hrow
        · exact Std.lt_of_le_of_ne (List.not_lt.1 hnlt) (fun e => hne e.symm)
        · exact hfirst row hrow

/-- Writes a row. -/
def insert (t : Table α) (key : Bytes) (value : α) : Table α :=
  ⟨insertRow key value t.rows, ascending_insertRow key value t.ascending⟩

/-- The table of some rows; of two rows with one key the later one counts. -/
def ofRows (rows : List (Bytes × α)) : Table α :=
  rows.foldl (fun t row => t.insert row.1 row.2) empty

/-! ## 3. Laws -/

theorem find?_insertRow (key : Bytes) (value : α) (k : Bytes) (rows : List (Bytes × α)) :
    (insertRow key value rows).find? (·.1 == k) =
      if key = k then some (key, value) else rows.find? (·.1 == k) := by
  induction rows with
  | nil => by_cases h : key = k <;> simp [insertRow, h]
  | cons first rest ih =>
    unfold insertRow
    split
    · by_cases h : key = k <;> simp [h]
    · split
      · rename_i heq
        by_cases h : key = k
        · simp [h]
        · have h' : first.1 ≠ k := fun e => h (heq.trans e)
          simp [h, h']
      · rename_i hne
        by_cases hk : first.1 = k
        · have h' : key ≠ k := fun e => hne (e.trans hk.symm)
          simp [hk, h']
        · simp [hk, ih]

@[simp] theorem get?_empty (k : Bytes) : (empty : Table α).get? k = none := rfl

theorem get?_insert (t : Table α) (key : Bytes) (value : α) (k : Bytes) :
    (t.insert key value).get? k = if key = k then some value else t.get? k := by
  unfold get? insert
  rw [find?_insertRow]
  split <;> simp

theorem keys_insert (t : Table α) (key : Bytes) (value : α) (k : Bytes) :
    k ∈ (t.insert key value).rows.map (·.1) ↔ k = key ∨ k ∈ t.rows.map (·.1) := by
  simp only [insert]
  induction t.rows with
  | nil => simp [insertRow]
  | cons first rest ih =>
    unfold insertRow
    split
    · simp
    · split
      · rename_i heq
        simp [heq]
      · simp only [List.map_cons, List.mem_cons, ih]
        exact or_left_comm

end Table

end SignedRecords
