import SignedRecords.Proofs.NeutralKey
import SignedRecords.Proofs.StoreKinds

/-!
# The order of writes

Writes come to a store in some order. What is kept in the end does not depend on it: of the records
with one key the store keeps the one with the highest sequence number, as long as no two of them
have the same one. On the way nothing that is kept is ever replaced by something older.

Main statement: `writes_converge`.
-/

namespace SignedRecords

/-- One of some records, and none of the same key has a higher sequence number. -/
def IsNewest (rs : List Record) (r : Record) : Prop :=
  r ∈ rs ∧ ∀ other ∈ rs, other.key = r.key → other.sequence ≤ r.sequence

theorem Record.id_inj {a b : Record} : a.id = b.id ↔ a.key = b.key := recordId_inj

/-! ## 1. Tables -/

namespace Table

/-- What a table keeps of some records: some of them under their ids, and under the id of each one
    a record that is not older. -/
structure Gathers (t : Table Record) (rs : List Record) : Prop where
  sound : ∀ key c, t.get? key = some c → key = Bytes.ofText c.id ∧ c ∈ rs
  above : ∀ r ∈ rs, ∃ c, t.get? (Bytes.ofText r.id) = some c ∧ r.sequence ≤ c.sequence

theorem gathers_empty : (empty : Table Record).Gathers [] :=
  ⟨fun _ _ h => (nomatch h), fun _ h => (nomatch h)⟩

/-- No attempt replaces a record by an older one. -/
theorem get?_attempt_of_some {t : Table Record} {key : Bytes} {c : Record}
    (hc : t.get? key = some c) (r : Record) :
    ∃ d, (t.attempt r).get? key = some d ∧ c.sequence ≤ d.sequence := by
  rcases t.attempt_cases r with ⟨h, -⟩ | ⟨h, hnewer⟩
  · rw [h]
    exact ⟨c, hc, Int64.le_refl _⟩
  · rw [h, get?_insert]
    by_cases hkey : Bytes.ofText r.id = key
    · subst hkey
      exact ⟨r, if_pos rfl, Int64.le_of_lt (hnewer c hc)⟩
    · exact ⟨c, (if_neg hkey).trans hc, Int64.le_refl _⟩

theorem Gathers.attempt {t : Table Record} {rs : List Record} (h : t.Gathers rs) (r : Record) :
    (t.attempt r).Gathers (rs ++ [r]) := by
  constructor
  case sound =>
    intro key c hc
    rcases t.attempt_cases r with ⟨heq, -⟩ | ⟨heq, -⟩
    · rw [heq] at hc
      obtain ⟨hkey, hmem⟩ := h.sound key c hc
      exact ⟨hkey, List.mem_append_left _ hmem⟩
    · rw [heq, get?_insert] at hc
      split at hc
      · rename_i hkey
        cases hc
        exact ⟨hkey.symm, List.mem_append_right _ (List.mem_singleton_self r)⟩
      · obtain ⟨hkey, hmem⟩ := h.sound key c hc
        exact ⟨hkey, List.mem_append_left _ hmem⟩
  case above =>
    intro o ho
    rcases List.mem_append.1 ho with ho | ho
    · obtain ⟨c, hc, hle⟩ := h.above o ho
      obtain ⟨d, hd, hle'⟩ := get?_attempt_of_some hc r
      exact ⟨d, hd, Int64.le_trans hle hle'⟩
    · rw [List.mem_singleton.1 ho]
      rcases t.attempt_cases r with ⟨heq, c, hc, hle⟩ | ⟨heq, -⟩
      · rw [heq]
        exact ⟨c, hc, hle⟩
      · exact ⟨r, by rw [heq, get?_insert, if_pos rfl], Int64.le_refl _⟩

theorem Gathers.attempts {t : Table Record} {before : List Record} (h : t.Gathers before)
    (rs : List Record) : (rs.foldl Table.attempt t).Gathers (before ++ rs) := by
  induction rs generalizing t before with
  | nil => rwa [List.append_nil]
  | cons r rest ih =>
    rw [List.append_cons]
    exact ih (h.attempt r)

/-- Where no two records share key and sequence number, the newest ones are what is kept. -/
theorem Gathers.get?_eq_some {t : Table Record} {rs : List Record} (h : t.Gathers rs)
    (hone : ∀ a ∈ rs, ∀ b ∈ rs, a.key = b.key → a.sequence = b.sequence → a = b) {key : Bytes}
    {r : Record} : t.get? key = some r ↔ key = Bytes.ofText r.id ∧ IsNewest rs r := by
  constructor
  · intro hr
    obtain ⟨hkey, hmem⟩ := h.sound key r hr
    refine ⟨hkey, hmem, fun other ho hsame => ?_⟩
    obtain ⟨c, hc, hle⟩ := h.above other ho
    rw [Record.id_inj.2 hsame, ← hkey, hr] at hc
    cases hc
    exact hle
  · rintro ⟨rfl, hmem, hnewest⟩
    obtain ⟨c, hc, hle⟩ := h.above r hmem
    obtain ⟨hkey, hcmem⟩ := h.sound _ c hc
    have hsame : c.key = r.key := Record.id_inj.1 (Bytes.ofText_inj.1 hkey).symm
    have hseq := Int64.le_antisymm (hnewest c hcmem hsame) hle
    rw [hc, hone c hcmem r hmem hsame hseq]

/-- Two tables with the newest of the same records are one. -/
theorem Gathers.eq_of_perm {t u : Table Record} {rs rs' : List Record} (ht : t.Gathers rs)
    (hu : u.Gathers rs') (hperm : rs.Perm rs')
    (hone : ∀ a ∈ rs, ∀ b ∈ rs, a.key = b.key → a.sequence = b.sequence → a = b) : t = u := by
  have hu' : u.Gathers rs :=
    ⟨fun key c hc => ⟨(hu.sound key c hc).1, hperm.mem_iff.2 (hu.sound key c hc).2⟩,
      fun r hr => hu.above r (hperm.mem_iff.1 hr)⟩
  refine ext_get? fun key => Option.ext fun r => ?_
  rw [ht.get?_eq_some hone, hu'.get?_eq_some hone]

end Table

/-! ## 2. Stores -/

namespace Store

/-- Two stores of one kind that keep the same under the same ids. -/
def SameRecords : Store → Store → Prop
  | memory m, memory n => m.records = n.records
  | rows b, rows c => b.records = c.records
  | _, _ => False

/-- What a write does. -/
structure Arbitrates (s : Store) (r : Record) : Prop where
  /-- A write is refused exactly for another record that is not older. -/
  stale : ∀ e, s.write r = .error e ↔ ∃ c, s.read r.id = .ok (some c) ∧ c ≠ r ∧
    r.sequence ≤ c.sequence ∧ e = .staleSequence c.sequence r.sequence
  /-- A write that is refused changes nothing. -/
  refused : ∀ e, s.write r = .error e → s.attempt r = s
  /-- A record that is there already can be written again, and nothing changes. -/
  same : s.read r.id = .ok (some r) → s.write r = .ok s
  /-- No sequence number goes back. -/
  grows : ∀ id c, s.read id = .ok (some c) →
    ∃ d, (s.attempt r).read id = .ok (some d) ∧ c.sequence ≤ d.sequence

theorem write_of_read_same {s : Store} {r : Record} (h : s.read r.id = .ok (some r)) :
    s.write r = .ok s := by
  have hkept : arbitrate (some r) r = .ok false := arbitrate_eq_false.2 rfl
  cases s with
  | memory m =>
    have hget : m.records.get? (Bytes.ofText r.id) = some r := Except.ok.inj h
    simp only [write, MemoryStore.write, hget, hkept]
    rfl
  | rows b =>
    have hread : b.readKey (Bytes.ofText r.id) = .ok (some r) := h
    simp only [write, RowStore.write, hread, hkept]
    rfl

theorem Keeps.arbitrates {s : Store} {t : Table Record} (h : s.Keeps t) {r : Record}
    (hr : s.Takes r) : s.Arbitrates r := by
  constructor
  case stale =>
    intro e
    have hread : ∀ c, s.read r.id = .ok (some c) ↔ t.get? (Bytes.ofText r.id) = some c := by
      intro c
      rw [h.read, Except.ok.injEq]
    simp only [hread, ← Table.offer_eq_error]
    rcases h.write hr with ⟨e', ht, hs⟩ | ⟨t', s', ht, hs, -⟩
    · rw [ht, hs]
      simp
    · rw [ht, hs]
      simp
  case refused =>
    intro e he
    rw [Store.attempt, he]
    rfl
  case same => exact write_of_read_same
  case grows =>
    intro id c hc
    rw [h.read] at hc
    obtain ⟨d, hd, hle⟩ := Table.get?_attempt_of_some (Except.ok.inj hc) r
    exact ⟨d, by rw [(h.attempt hr).read, hd], hle⟩

/-- Two stores of one kind that keep one table keep the same. -/
theorem Keeps.sameRecords {a b : Store} {t : Table Record} (ha : a.Keeps t) (hb : b.Keeps t)
    (hkind : a.isRows = b.isRows) : a.SameRecords b := by
  cases a with
  | memory m =>
    cases b with
    | memory n => exact ha.1.trans hb.1.symm
    | rows c => cases hkind
  | rows m =>
    cases b with
    | memory n => cases hkind
    | rows c => exact ha.1.trans hb.1.symm

theorem isRows_writeAll (s : Store) (rs : List Record) : (s.writeAll rs).isRows = s.isRows := by
  induction rs generalizing s with
  | nil => rfl
  | cons r rest ih =>
    show ((s.attempt r).writeAll rest).isRows = s.isRows
    rw [ih, isRows_attempt]

theorem takes_writeAll {s : Store} {rs : List Record} {r : Record} :
    (s.writeAll rs).Takes r ↔ s.Takes r := by
  unfold Takes
  rw [isRows_writeAll]

/-- Writes do to a store what they do to its table. -/
theorem Keeps.attempts {s : Store} {t : Table Record} (h : s.Keeps t) {rs : List Record}
    (hrs : ∀ r ∈ rs, s.Takes r) : (s.writeAll rs).Keeps (rs.foldl Table.attempt t) := by
  induction rs generalizing s t with
  | nil => exact h
  | cons r rest ih =>
    rw [List.forall_mem_cons] at hrs
    exact ih (h.attempt hrs.1) fun o ho => takes_attempt.2 (hrs.2 o ho)

/-- A new store, of either kind. -/
def IsNew (s : Store) : Prop := s = memory .empty ∨ s = rows .empty

theorem IsNew.keeps {s : Store} (h : s.IsNew) : s.Keeps .empty := by
  rcases h with rfl | rfl
  · exact keeps_memory_empty
  · exact keeps_rows_empty

theorem IsNew.keeps_writeAll {s : Store} (h : s.IsNew) {rs : List Record}
    (hvalid : ∀ r ∈ rs, r.validate = .ok ()) :
    ∃ t, (s.writeAll rs).Keeps t ∧ t.Gathers rs :=
  ⟨_, h.keeps.attempts fun r hr => takes_of_validate (hvalid r hr),
    Table.gathers_empty.attempts rs⟩

/-- Valid records are written to a new store, of either kind, in two orders; no two different ones
    share key and sequence number. Both orders leave the same: under the id of every key the newest
    record. And on the way every write is arbitrated. -/
theorem writes_converge {start : Store} (hstart : start.IsNew) {rs rs' : List Record}
    (hvalid : ∀ r ∈ rs, r.validate = .ok ())
    (hone : ∀ a ∈ rs, ∀ b ∈ rs, a.key = b.key → a.sequence = b.sequence → a = b)
    (hperm : rs.Perm rs') :
    (start.writeAll rs).SameRecords (start.writeAll rs') ∧
      (∀ id, ∃ stored, (start.writeAll rs).read id = .ok stored ∧
        ∀ r, stored = some r ↔ r.id = id ∧ IsNewest rs r) ∧
      ∀ before r, before ++ [r] <+: rs → (start.writeAll before).Arbitrates r := by
  have hvalid' : ∀ r ∈ rs', r.validate = .ok () := fun r hr => hvalid r (hperm.mem_iff.2 hr)
  obtain ⟨t, ht, hgt⟩ := hstart.keeps_writeAll hvalid
  obtain ⟨u, hu, hgu⟩ := hstart.keeps_writeAll hvalid'
  refine ⟨?_, ?_, ?_⟩
  · obtain rfl := hgt.eq_of_perm hgu hperm hone
    refine ht.sameRecords hu ?_
    rw [isRows_writeAll, isRows_writeAll]
  · intro id
    refine ⟨_, ht.read id, fun r => ?_⟩
    rw [hgt.get?_eq_some hone, Bytes.ofText_inj, eq_comm]
  · intro before r hbegins
    have hbefore : ∀ o ∈ before ++ [r], o.validate = .ok () :=
      fun o ho => hvalid o (hbegins.subset ho)
    obtain ⟨v, hv, -⟩ := hstart.keeps_writeAll fun o ho => hbefore o (List.mem_append_left _ ho)
    exact hv.arbitrates
      (takes_of_validate (hbefore r (List.mem_append_right _ (List.mem_singleton_self r))))

/-- A newer record comes before two older ones of its key and once more after them, and the other
    way round. -/
theorem writes_converge_of_reversed :
    ∃ rs : List Record,
      rs = [neutralRecord [5] 5, neutralRecord [2] 2, neutralRecord [3] (-3),
        neutralRecord [5] 5] ∧
      (rows .empty).IsNew ∧ (∀ r ∈ rs, r.validate = .ok ()) ∧
      (∀ a ∈ rs, ∀ b ∈ rs, a.key = b.key → a.sequence = b.sequence → a = b) ∧
      rs.Perm rs.reverse ∧
      ((rows .empty).writeAll rs).SameRecords ((rows .empty).writeAll rs.reverse) ∧
      (∀ id, ∃ stored, ((rows .empty).writeAll rs).read id = .ok stored ∧
        ∀ r, stored = some r ↔ r.id = id ∧ IsNewest rs r) ∧
      ∀ before r, before ++ [r] <+: rs → ((rows .empty).writeAll before).Arbitrates r := by
  let rs := [neutralRecord [5] 5, neutralRecord [2] 2, neutralRecord [3] (-3),
    neutralRecord [5] 5]
  have hvalid : ∀ r ∈ rs, r.validate = .ok () := by
    intro r hr
    simp only [rs, List.mem_cons, List.not_mem_nil, or_false] at hr
    rcases hr with rfl | rfl | rfl | rfl <;>
      exact validate_neutralRecord (by decide) (by decide)
  have hone : ∀ a ∈ rs, ∀ b ∈ rs, a.key = b.key → a.sequence = b.sequence → a = b := by decide
  have hperm : rs.Perm rs.reverse := (List.reverse_perm rs).symm
  exact ⟨rs, rfl, .inr rfl, hvalid, hone, hperm, writes_converge (.inr rfl) hvalid hone hperm⟩

end Store

end SignedRecords
