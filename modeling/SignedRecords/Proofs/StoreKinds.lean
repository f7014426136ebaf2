import SignedRecords.Proofs.Codec
import SignedRecords.Proofs.NeutralKey
import SignedRecords.Proofs.Stores
import SignedRecords.Proofs.Tables
import SignedRecords.Store.Scan

/-!
# Two kinds of store, one table

A store in memory keeps records as they are, a store of rows keeps their wire forms and reads every
row again. As long as only valid records are written, both stand for the same table of records
under their ids, and for the same ledger of failures. What a store answers depends on nothing else,
so callers cannot tell the two kinds apart.

Main statements: `Keeps.write`, `Keeps.list` and `answers_alike`.
-/

namespace SignedRecords

/-! ## 1. Tables of records -/

namespace Table

/-- The records are under their own ids. -/
def Filed (t : Table Record) : Prop := ∀ row ∈ t.rows, row.1 = Bytes.ofText row.2.id

/-- Writes a record into a table if it is newer. -/
def offer (t : Table Record) (r : Record) : Except StoreError (Table Record) :=
  match arbitrate (t.get? (Bytes.ofText r.id)) r with
  | .error e => .error e
  | .ok false => .ok t
  | .ok true => .ok (t.insert (Bytes.ofText r.id) r)

/-- The table after somebody has tried to write a record. -/
def attempt (t : Table Record) (r : Record) : Table Record := (t.offer r).toOption.getD t

/-- One page of records, in the order of their ids, after a token. -/
def page (t : Table Record) (token : Option String) (pageSize : Nat) : Page :=
  let records := ((t.after (token.map Bytes.ofText)).take pageSize).map (·.2)
  ⟨records, MemoryStore.nextToken records pageSize⟩

theorem offer_eq_ok {t t' : Table Record} {r : Record} : t.offer r = .ok t' ↔
    (t.get? (Bytes.ofText r.id) = some r ∧ t' = t) ∨
      ((∀ c, t.get? (Bytes.ofText r.id) = some c → c.sequence < r.sequence) ∧
        t' = t.insert (Bytes.ofText r.id) r) := by
  rw [← arbitrate_eq_false, ← arbitrate_eq_true, offer]
  split
  · rename_i h
    simp [h]
  · rename_i h
    simp [h, eq_comm]
  · rename_i h
    simp [h, eq_comm]

theorem offer_eq_error {t : Table Record} {r : Record} {e : StoreError} :
    t.offer r = .error e ↔ ∃ c, t.get? (Bytes.ofText r.id) = some c ∧ c ≠ r ∧
      r.sequence ≤ c.sequence ∧ e = .staleSequence c.sequence r.sequence := by
  rw [← arbitrate_eq_error, offer]
  split
  · rename_i h
    simp [h]
  · rename_i h
    simp [h]
  · rename_i h
    simp [h]

/-- What an attempt leaves: the table as it was, or the record in its place. -/
theorem attempt_cases (t : Table Record) (r : Record) :
    (t.attempt r = t ∧ ∃ c, t.get? (Bytes.ofText r.id) = some c ∧ r.sequence ≤ c.sequence) ∨
      (t.attempt r = t.insert (Bytes.ofText r.id) r ∧
        ∀ c, t.get? (Bytes.ofText r.id) = some c → c.sequence < r.sequence) := by
  unfold attempt
  cases h : t.offer r with
  | error e =>
    obtain ⟨c, hc, -, hle, -⟩ := offer_eq_error.1 h
    exact .inl ⟨rfl, c, hc, hle⟩
  | ok t' =>
    rcases offer_eq_ok.1 h with ⟨hsame, rfl⟩ | ⟨hnewer, rfl⟩
    · exact .inl ⟨rfl, r, hsame, Int64.le_refl _⟩
    · exact .inr ⟨rfl, hnewer⟩

theorem filed_empty : (empty : Table Record).Filed := fun _ h => nomatch h

theorem Filed.id_eq {t : Table Record} (h : t.Filed) {key : Bytes} {r : Record}
    (hr : t.get? key = some r) : key = Bytes.ofText r.id := h _ (get?_eq_some.1 hr)

theorem Filed.insert {t : Table Record} (h : t.Filed) (r : Record) :
    (t.insert (Bytes.ofText r.id) r).Filed := by
  intro row hrow
  rcases mem_insert.1 hrow with rfl | ⟨-, hold⟩
  · rfl
  · exact h row hold

end Table

/-! ## 2. What a store keeps -/

namespace Store

/-- The store keeps the records of a table under their ids; where it keeps wire forms, the records
    are valid. -/
def Keeps : Store → Table Record → Prop
  | memory m, t => m.records = t ∧ t.Filed
  | rows s, t => s.records = t.map Record.toWire ∧ t.Filed ∧
      ∀ row ∈ t.rows, row.2.validate = .ok ()

/-- Whether a store keeps rows. -/
def isRows : Store → Bool
  | memory _ => false
  | rows _ => true

/-- A record that may be written to a store: the rows of a store of rows are to stay valid. -/
def Takes (s : Store) (r : Record) : Prop := s.isRows = true → r.validate = .ok ()

theorem takes_of_validate {s : Store} {r : Record} (h : r.validate = .ok ()) : s.Takes r :=
  fun _ => h

theorem isRows_attempt (s : Store) (r : Record) : (s.attempt r).isRows = s.isRows := by
  unfold attempt
  cases s with
  | memory m =>
    simp only [write]
    cases m.write r <;> rfl
  | rows b =>
    simp only [write]
    cases b.write r <;> rfl

theorem takes_attempt {s : Store} {r other : Record} :
    (s.attempt r).Takes other ↔ s.Takes other := by
  unfold Takes
  rw [isRows_attempt]

theorem Keeps.filed {s : Store} {t : Table Record} (h : s.Keeps t) : t.Filed := by
  cases s with
  | memory m => exact h.2
  | rows b => exact h.2.1

theorem keeps_memory_empty : (memory .empty).Keeps .empty := ⟨rfl, Table.filed_empty⟩

theorem keeps_rows_empty : (rows .empty).Keeps .empty :=
  ⟨rfl, Table.filed_empty, fun _ h => nomatch h⟩

end Store

/-- The row of a valid record under its id reads as the record. -/
theorem RowStore.readKey_eq {b : RowStore} {t : Table Record} (h : (Store.rows b).Keeps t)
    (key : Bytes) : b.readKey key = .ok (t.get? key) := by
  obtain ⟨hb, hfiled, hvalid⟩ := h
  rw [readKey, hb, Table.get?_map]
  cases hr : t.get? key with
  | none => rfl
  | some r =>
    have hread := readRow_toWire (hvalid _ (Table.get?_eq_some.1 hr))
    rw [← hfiled.id_eq hr] at hread
    simp only [Option.map_some, hread]
    rfl

namespace Store

/-- A store reads what its table has under the id. -/
theorem Keeps.read {s : Store} {t : Table Record} (h : s.Keeps t) (id : String) :
    s.read id = .ok (t.get? (Bytes.ofText id)) := by
  cases s with
  | memory m =>
    obtain ⟨rfl, -⟩ := h
    rfl
  | rows b => exact RowStore.readKey_eq h _

theorem Keeps.count {s : Store} {t : Table Record} (h : s.Keeps t) : s.count = t.size := by
  cases s with
  | memory m =>
    obtain ⟨rfl, -⟩ := h
    rfl
  | rows b =>
    obtain ⟨hb, -⟩ := h
    show b.records.size = _
    rw [hb, Table.size_map]

/-- A write does to a store what it does to its table, or is refused for the same reason. -/
theorem Keeps.write {s : Store} {t : Table Record} (h : s.Keeps t) {r : Record}
    (hr : s.Takes r) :
    (∃ e, t.offer r = .error e ∧ s.write r = .error e) ∨
      ∃ t' s', t.offer r = .ok t' ∧ s.write r = .ok s' ∧ s'.Keeps t' := by
  cases s with
  | memory m =>
    obtain ⟨rfl, hfiled⟩ := h
    simp only [Store.write, MemoryStore.write, Table.offer]
    cases harb : arbitrate (m.records.get? (Bytes.ofText r.id)) r with
    | error e => exact .inl ⟨e, rfl, rfl⟩
    | ok replaces =>
      cases replaces with
      | false => exact .inr ⟨_, _, rfl, rfl, rfl, hfiled⟩
      | true => exact .inr ⟨_, _, rfl, rfl, rfl, hfiled.insert r⟩
  | rows b =>
    have hread := RowStore.readKey_eq h (Bytes.ofText r.id)
    simp only [Store.write, RowStore.write, Table.offer, hread]
    cases harb : arbitrate (t.get? (Bytes.ofText r.id)) r with
    | error e => exact .inl ⟨e, rfl, rfl⟩
    | ok replaces =>
      cases replaces with
      | false => exact .inr ⟨_, _, rfl, rfl, h⟩
      | true =>
        obtain ⟨hb, hfiled, hvalid⟩ := h
        refine .inr ⟨_, _, rfl, rfl, ?_, hfiled.insert r, ?_⟩
        · rw [Table.map_insert, ← hb]
        · intro row hrow
          rcases Table.mem_insert.1 hrow with rfl | ⟨-, hold⟩
          · exact hr rfl
          · exact hvalid row hold

theorem Keeps.attempt {s : Store} {t : Table Record} (h : s.Keeps t) {r : Record}
    (hr : s.Takes r) : (s.attempt r).Keeps (t.attempt r) := by
  unfold Store.attempt Table.attempt
  rcases h.write hr with ⟨e, ht, hs⟩ | ⟨t', s', ht, hs, hkeeps⟩
  · rw [ht, hs]
    exact h
  · rw [ht, hs]
    exact hkeeps

/-- A store lists the pages of its table. -/
theorem Keeps.list {s : Store} {t : Table Record} (h : s.Keeps t) (token : Option String)
    (pageSize : Nat) : s.list token pageSize = t.page token pageSize := by
  cases s with
  | memory m =>
    obtain ⟨rfl, -⟩ := h
    rfl
  | rows b =>
    obtain ⟨hb, hfiled, hvalid⟩ := h
    simp only [Store.list, RowStore.list, Table.page, hb, Table.after_map, ← List.map_take]
    have hrows : ∀ row ∈ (t.after (token.map Bytes.ofText)).take pageSize,
        row.1 = Bytes.ofText row.2.id ∧ row.2.validate = .ok () := by
      intro row hrow
      have hmem := (Table.mem_after.1 (List.mem_of_mem_take hrow)).1
      exact ⟨hfiled row hmem, hvalid row hmem⟩
    generalize (t.after (token.map Bytes.ofText)).take pageSize = taken at hrows
    have hread : (taken.map fun row => (row.1, row.2.toWire)).filterMap
        (fun row => (RowStore.readRow row.1 row.2).toOption) = taken.map (·.2) := by
      rw [List.filterMap_map, ← List.filterMap_eq_map]
      refine List.filterMap_congr fun row hrow => ?_
      obtain ⟨hkey, hv⟩ := hrows row hrow
      simp only [Function.comp_apply, hkey, RowStore.readRow_toWire hv]
      rfl
    have hlast : (taken.map fun row => (row.1, row.2.toWire)).getLast?.map
        (fun row => Utf8.lossy row.1) = (taken.map (·.2)).getLast?.map Record.id := by
      rw [List.getLast?_map, List.getLast?_map, Option.map_map, Option.map_map]
      refine Option.map_congr fun row hrow => ?_
      obtain ⟨hkey, -⟩ := hrows row (List.mem_of_getLast? hrow)
      simp only [Function.comp_apply, hkey, Utf8.lossy_ofText]
    rw [hread, hlast, List.length_map, MemoryStore.nextToken, List.length_map]

end Store

/-! ## 3. Ledgers -/

namespace Table

/-- The failures are under their own ids, and a word can tell the length of each id. -/
def Noted (t : Table FailedRecord) : Prop :=
  ∀ row ∈ t.rows, row.1 = Bytes.ofText row.2.id ∧ row.1.length < Bytes.span 8

/-- Adds failures to a table. -/
def note (t : Table FailedRecord) (f : FailedRecord) : Table FailedRecord :=
  let before := ((t.get? (Bytes.ofText f.id)).map (·.count)).getD 0
  t.insert (Bytes.ofText f.id) ⟨f.id, saturatingAdd before f.count⟩

theorem Noted.id_eq {t : Table FailedRecord} (h : t.Noted) {f g : FailedRecord}
    (hg : t.get? (Bytes.ofText f.id) = some g) : g.id = f.id :=
  (Bytes.ofText_inj.1 (h _ (get?_eq_some.1 hg)).1).symm

theorem Noted.note {t : Table FailedRecord} (h : t.Noted) {f : FailedRecord}
    (hf : (Bytes.ofText f.id).length < Bytes.span 8) : (t.note f).Noted := by
  intro row hrow
  rcases mem_insert.1 hrow with rfl | ⟨-, hold⟩
  · exact ⟨rfl, hf⟩
  · exact h row hold

end Table

/-- The row of a failed record reads as the record. -/
theorem RowStore.readFailedRow_failedRow {f : FailedRecord}
    (h : (Bytes.ofText f.id).length < Bytes.span 8) : readFailedRow (failedRow f) = .ok f := by
  have htext := Codec.run_readText h (Bytes.littleEndian 4 f.count.toNat)
  have hnumber := Codec.run_readNumber 4 f.count.toNat []
  have hcount : f.count.toNat < Bytes.span 4 := f.count.toNat_lt
  rw [List.append_nil, Nat.mod_eq_of_lt hcount] at hnumber
  have hread : readFailed.run (failedRow f) = .ok (f, []) := by
    rw [readFailed, failedRow, Codec.run_bind_of_ok htext, Codec.run_bind_of_ok hnumber]
    simp only [UInt32.ofNat_toNat]
    rfl
  rw [readFailedRow, hread]

namespace Store

/-- The store keeps the failures of a table under their ids. -/
def KeepsLedger : Store → Table FailedRecord → Prop
  | memory m, t => m.failed = t ∧ t.Noted
  | rows s, t => s.failed = t.map RowStore.failedRow ∧ t.Noted

theorem keepsLedger_memory_empty : (memory .empty).KeepsLedger .empty :=
  ⟨rfl, fun _ h => nomatch h⟩

theorem keepsLedger_rows_empty : (rows .empty).KeepsLedger .empty :=
  ⟨rfl, fun _ h => nomatch h⟩

/-- A failure is added to a store as it is to its table. -/
theorem KeepsLedger.writeFailed {s : Store} {t : Table FailedRecord} (h : s.KeepsLedger t)
    {f : FailedRecord} (hf : (Bytes.ofText f.id).length < Bytes.span 8) :
    ∃ s', s.writeFailed f = .ok s' ∧ s'.KeepsLedger (t.note f) := by
  cases s with
  | memory m =>
    obtain ⟨rfl, hnoted⟩ := h
    refine ⟨_, rfl, ?_, hnoted.note hf⟩
    simp only [MemoryStore.writeFailed, Table.note]
    cases hg : m.failed.get? (Bytes.ofText f.id) with
    | none => rfl
    | some g => simp only [Option.getD_some, Option.map_some, hnoted.id_eq hg]
  | rows b =>
    obtain ⟨hb, hnoted⟩ := h
    simp only [Store.writeFailed, RowStore.writeFailed, hb, Table.get?_map]
    cases hg : t.get? (Bytes.ofText f.id) with
    | none =>
      refine ⟨_, rfl, ?_, hnoted.note hf⟩
      simp only [Table.note, hg, Table.map_insert]
      rfl
    | some g =>
      obtain ⟨hkey, hlen⟩ := hnoted _ (Table.get?_eq_some.1 hg)
      have hread := RowStore.readFailedRow_failedRow (f := g) (hkey ▸ hlen)
      simp only [Option.map_some, hread]
      refine ⟨_, rfl, ?_, hnoted.note hf⟩
      simp only [Table.note, hg, Table.map_insert]
      rfl

theorem KeepsLedger.listFailed {s : Store} {t : Table FailedRecord} (h : s.KeepsLedger t) :
    s.listFailed = .ok (t.rows.map (·.2)) := by
  cases s with
  | memory m =>
    obtain ⟨rfl, -⟩ := h
    rfl
  | rows b =>
    obtain ⟨hb, hnoted⟩ := h
    simp only [Store.listFailed, RowStore.listFailed, hb, Table.rows_map]
    rw [List.mapM_map]
    have hread : ∀ row ∈ t.rows,
        RowStore.readFailedRow (RowStore.failedRow row.2) = .ok row.2 := by
      intro row hrow
      obtain ⟨hkey, hlen⟩ := hnoted row hrow
      exact RowStore.readFailedRow_failedRow (hkey ▸ hlen)
    generalize t.rows = rows at hread
    induction rows with
    | nil => rfl
    | cons first rest ih =>
      rw [List.forall_mem_cons] at hread
      rw [List.mapM_cons, ih hread.2]
      simp only [Function.comp_apply, hread.1]
      rfl

theorem KeepsLedger.failedCount {s : Store} {t : Table FailedRecord} (h : s.KeepsLedger t) :
    s.failedCount = t.size := by
  cases s with
  | memory m =>
    obtain ⟨rfl, -⟩ := h
    rfl
  | rows b =>
    obtain ⟨hb, -⟩ := h
    show b.failed.size = _
    rw [hb, Table.size_map]

end Store

/-! ## 4. Requests -/

/-- What is asked of a store. -/
inductive StoreRequest where
  | write (record : Record)
  | read (id : String)
  | list (token : Option String) (pageSize : Nat)
  | count
  | writeFailed (failed : FailedRecord)
  | listFailed
  | failedCount

/-- What a store answers. -/
inductive StoreAnswer where
  | written (result : Except StoreError Unit)
  | read (result : Except StoreError (Option Record))
  | listed (page : Page)
  | count (number : Nat)
  | failures (result : Except StoreError (List FailedRecord))

/-- A request with a valid record, or an id whose length a word can tell. -/
def StoreRequest.Proper : StoreRequest → Prop
  | .write r => r.validate = .ok ()
  | .writeFailed f => (Bytes.ofText f.id).length < Bytes.span 8
  | _ => True

namespace Store

/-- One request: the store afterwards, and the answer. What fails changes nothing. -/
def serve (s : Store) : StoreRequest → Store × StoreAnswer
  | .write r => (s.attempt r, .written ((s.write r).map fun _ => ()))
  | .read id => (s, .read (s.read id))
  | .list token pageSize => (s, .listed (s.list token pageSize))
  | .count => (s, .count s.count)
  | .writeFailed f =>
    ((s.writeFailed f).toOption.getD s, .written ((s.writeFailed f).map fun _ => ()))
  | .listFailed => (s, .failures s.listFailed)
  | .failedCount => (s, .count s.failedCount)

/-- The answers to some requests, the first one first. -/
def answers (s : Store) : List StoreRequest → List StoreAnswer
  | [] => []
  | request :: rest => (s.serve request).2 :: (s.serve request).1.answers rest

/-- Writing a record leaves the ledger as it is. -/
theorem KeepsLedger.attempt {s : Store} {t : Table FailedRecord} (h : s.KeepsLedger t)
    (r : Record) : (s.attempt r).KeepsLedger t := by
  unfold Store.attempt
  cases hw : s.write r with
  | error e => exact h
  | ok s' =>
    cases s with
    | memory m =>
      simp only [Store.write, MemoryStore.write] at hw
      split at hw <;> cases hw <;> exact h
    | rows b =>
      simp only [Store.write, RowStore.write] at hw
      split at hw
      · cases hw
      · split at hw <;> cases hw <;> exact h

/-- Adding failures leaves the records as they are. -/
theorem Keeps.of_writeFailed {s s' : Store} {t : Table Record} (h : s.Keeps t) {f : FailedRecord}
    (hw : s.writeFailed f = .ok s') : s'.Keeps t := by
  cases s with
  | memory m =>
    cases hw
    exact h
  | rows b =>
    simp only [Store.writeFailed, RowStore.writeFailed] at hw
    split at hw <;> cases hw
    exact h

/-- The store keeps the records of one table and the failures of another. -/
structure Stands (s : Store) (records : Table Record) (failed : Table FailedRecord) : Prop where
  keeps : s.Keeps records
  ledger : s.KeepsLedger failed

/-- Two stores that stand for the same tables answer a request alike, and then stand for the same
    tables again. -/
theorem Stands.serve {a b : Store} {records : Table Record} {failed : Table FailedRecord}
    (ha : a.Stands records failed) (hb : b.Stands records failed) {request : StoreRequest}
    (hr : request.Proper) : (a.serve request).2 = (b.serve request).2 ∧
      ∃ records' failed', (a.serve request).1.Stands records' failed' ∧
        (b.serve request).1.Stands records' failed' := by
  have hsame : ∃ records' failed', a.Stands records' failed' ∧ b.Stands records' failed' :=
    ⟨records, failed, ha, hb⟩
  cases request with
  | write r =>
    have hta : a.Takes r := takes_of_validate hr
    have htb : b.Takes r := takes_of_validate hr
    refine ⟨?_, _, failed, ⟨ha.keeps.attempt hta, ha.ledger.attempt r⟩,
      ⟨hb.keeps.attempt htb, hb.ledger.attempt r⟩⟩
    simp only [Store.serve]
    rcases ha.keeps.write hta with ⟨e, ht, hwa⟩ | ⟨t', a', ht, hwa, -⟩
    · rcases hb.keeps.write htb with ⟨e', ht', hwb⟩ | ⟨t', b', ht', -, -⟩
      · rw [ht] at ht'
        cases ht'
        rw [hwa, hwb]
      · rw [ht] at ht'
        cases ht'
    · rcases hb.keeps.write htb with ⟨e', ht', -⟩ | ⟨t'', b', -, hwb, -⟩
      · rw [ht] at ht'
        cases ht'
      · rw [hwa, hwb]
        rfl
  | writeFailed f =>
    obtain ⟨a', hwa, hla⟩ := ha.ledger.writeFailed hr
    obtain ⟨b', hwb, hlb⟩ := hb.ledger.writeFailed hr
    simp only [Store.serve, hwa, hwb]
    exact ⟨rfl, records, _, ⟨ha.keeps.of_writeFailed hwa, hla⟩, ⟨hb.keeps.of_writeFailed hwb, hlb⟩⟩
  | read id =>
    refine ⟨congrArg StoreAnswer.read ?_, hsame⟩
    rw [ha.keeps.read, hb.keeps.read]
  | list token pageSize =>
    refine ⟨congrArg StoreAnswer.listed ?_, hsame⟩
    rw [ha.keeps.list, hb.keeps.list]
  | count =>
    refine ⟨congrArg StoreAnswer.count ?_, hsame⟩
    rw [ha.keeps.count, hb.keeps.count]
  | listFailed =>
    refine ⟨congrArg StoreAnswer.failures ?_, hsame⟩
    rw [ha.ledger.listFailed, hb.ledger.listFailed]
  | failedCount =>
    refine ⟨congrArg StoreAnswer.count ?_, hsame⟩
    rw [ha.ledger.failedCount, hb.ledger.failedCount]

theorem Stands.answers {a b : Store} {records : Table Record} {failed : Table FailedRecord}
    (ha : a.Stands records failed) (hb : b.Stands records failed) {requests : List StoreRequest}
    (hr : ∀ request ∈ requests, request.Proper) : a.answers requests = b.answers requests := by
  induction requests generalizing a b records failed with
  | nil => rfl
  | cons request rest ih =>
    rw [List.forall_mem_cons] at hr
    obtain ⟨hanswer, records', failed', ha', hb'⟩ := ha.serve hb hr.1
    rw [Store.answers, Store.answers, hanswer, ih ha' hb' hr.2]

/-- Whatever is asked of two stores that were empty at first, one in memory and one of rows, they
    give the same answers, refusals, pages and tokens included: as long as the records that are
    written are valid, and a word can tell the length of every id that failures are noted for. -/
theorem answers_alike (requests : List StoreRequest) (h : ∀ request ∈ requests, request.Proper) :
    (memory .empty).answers requests = (rows .empty).answers requests :=
  Stands.answers ⟨keeps_memory_empty, keepsLedger_memory_empty⟩
    ⟨keeps_rows_empty, keepsLedger_rows_empty⟩ h

/-- A record is written, an older one is refused and both pages of the listing are asked for;
    failures of an id that is none are noted until their number can grow no more. -/
theorem answers_alike_of_refused :
    ∃ requests : List StoreRequest,
      requests = [.write (neutralRecord [2] 2), .write (neutralRecord [1] 1),
        .read (neutralRecord [] 1).id, .read "no id", .list none 1,
        .list (some (neutralRecord [] 1).id) 1, .count, .writeFailed ⟨"no id", 4294967295⟩,
        .writeFailed ⟨"no id", 3⟩, .listFailed, .failedCount] ∧
      (∀ request ∈ requests, request.Proper) ∧
      (memory .empty).answers requests = (rows .empty).answers requests := by
  let requests : List StoreRequest := [.write (neutralRecord [2] 2), .write (neutralRecord [1] 1),
    .read (neutralRecord [] 1).id, .read "no id", .list none 1,
    .list (some (neutralRecord [] 1).id) 1, .count, .writeFailed ⟨"no id", 4294967295⟩,
    .writeFailed ⟨"no id", 3⟩, .listFailed, .failedCount]
  have hproper : ∀ request ∈ requests, request.Proper := by
    have hnew : (neutralRecord [2] 2).validate = .ok () :=
      validate_neutralRecord (by decide) (by decide)
    have hold : (neutralRecord [1] 1).validate = .ok () :=
      validate_neutralRecord (by decide) (by decide)
    have hid : (Bytes.ofText "no id").length < Bytes.span 8 := by decide
    simp only [requests, List.forall_mem_cons, StoreRequest.Proper]
    exact ⟨hnew, hold, trivial, trivial, trivial, trivial, trivial, hid, hid, trivial, trivial,
      fun _ h => nomatch h⟩
  exact ⟨requests, rfl, hproper, answers_alike requests hproper⟩

end Store

end SignedRecords
