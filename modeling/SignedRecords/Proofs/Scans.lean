import SignedRecords.Proofs.WriteOrder

/-!
# Scans beside writers

A scan goes through the ids of a store in increasing order, a page at a time, and its token is the
last id that it has passed. What others write meanwhile may come before the token or after it. In
neither case does the scan lose an id that was there when it began, because no write takes an id
away, and it never goes back.

Main statements: `page_cases`, `Passed.page` and `thorough_scan`.
-/

namespace SignedRecords

/-- The ids increase, octet by octet; no id comes twice. -/
def IdsAscend (records : List Record) : Prop :=
  records.Pairwise fun a b => Bytes.ofText a.id < Bytes.ofText b.id

namespace Table

/-! ## 1. Pages -/

theorem filed_after {t : Table Record} (h : t.Filed) {bound : Option Bytes} {row : Bytes × Record}
    (hrow : row ∈ t.after bound) : row.1 = Bytes.ofText row.2.id :=
  h row (mem_after.1 hrow).1

theorem idsAscend_after {t : Table Record} (h : t.Filed) (bound : Option Bytes) :
    IdsAscend ((t.after bound).map (·.2)) := by
  refine List.pairwise_map.2 ((t.ascending_after bound).imp_of_mem ?_)
  intro a b ha hb hlt
  rwa [filed_after h ha, filed_after h hb] at hlt

theorem filter_after {α : Type} (t : Table α) {bound : Option Bytes} {key : Bytes}
    (h : Past bound key) :
    (t.after bound).filter (fun row => key < row.1) = t.after (some key) := by
  cases bound with
  | none => rfl
  | some b =>
    have hb : b < key := h b rfl
    rw [after, List.filter_filter]
    refine List.filter_congr fun row _ => ?_
    rw [Bool.and_eq_left_iff_imp, decide_eq_true_iff, decide_eq_true_iff]
    exact List.lt_trans hb

/-- The rows after the key of a row are those that follow the row. -/
theorem after_of_append {α : Type} {t : Table α} {bound : Option Bytes} {row : Bytes × α}
    {before rest : List (Bytes × α)} (hrows : t.after bound = before ++ row :: rest) :
    t.after (some row.1) = rest := by
  have hrow : row ∈ t.after bound := hrows ▸ List.mem_append_right _ List.mem_cons_self
  have hasc := t.ascending_after bound
  rw [hrows, List.pairwise_append, List.pairwise_cons] at hasc
  obtain ⟨-, ⟨hrest, -⟩, hbefore⟩ := hasc
  have hnone : before.filter (fun other => row.1 < other.1) = [] := by
    refine List.filter_eq_nil_iff.2 fun other ho hlt => ?_
    have hback := hbefore other ho row List.mem_cons_self
    exact List.lt_irrefl _ (List.lt_trans hback (of_decide_eq_true hlt))
  have hall : rest.filter (fun other => row.1 < other.1) = rest :=
    List.filter_eq_self.2 fun other ho => decide_eq_true (hrest other ho)
  rw [← t.filter_after (mem_after.1 hrow).2, hrows, List.filter_append, List.filter_cons, hnone,
    hall, if_neg (by simp), List.nil_append]

/-- A page is either the last one, with all the rows that are left, or a full one whose token is
    the id of its last record. -/
theorem page_cases {t : Table Record} (h : t.Filed) {pageSize : Nat} (hpos : 0 < pageSize)
    (token : Option String) :
    ((t.after (token.map Bytes.ofText)).length < pageSize ∧
        t.page token pageSize = ⟨(t.after (token.map Bytes.ofText)).map (·.2), none⟩) ∨
      ∃ before last rest, t.after (token.map Bytes.ofText) = before ++ last :: rest ∧
        before.length + 1 = pageSize ∧
        t.page token pageSize = ⟨(before ++ [last]).map (·.2), some last.2.id⟩ ∧
        t.after (some (Bytes.ofText last.2.id)) = rest := by
  generalize hrows : t.after (token.map Bytes.ofText) = rows
  by_cases hlt : rows.length < pageSize
  · left
    refine ⟨hlt, ?_⟩
    rw [page, hrows, List.take_of_length_le (Nat.le_of_lt hlt), MemoryStore.nextToken,
      List.length_map, if_neg (fun hfull => Nat.ne_of_lt hlt hfull.2)]
  · right
    have hlength : (rows.take pageSize).length = pageSize :=
      List.length_take_of_le (Nat.le_of_not_lt hlt)
    obtain hnil | ⟨before, last, htake⟩ := List.eq_nil_or_concat (rows.take pageSize)
    · rw [hnil] at hlength
      exact absurd hlength (Nat.ne_of_lt hpos)
    · rw [List.concat_eq_append] at htake
      -- the page is full and has a last row, and what follows it is what is left
      have hsplit : rows = before ++ last :: rows.drop pageSize := by
        rw [List.append_cons, ← htake, List.take_append_drop]
      have hlast : last ∈ t.after (token.map Bytes.ofText) := by
        rw [hrows, hsplit]
        exact List.mem_append_right _ List.mem_cons_self
      refine ⟨before, last, rows.drop pageSize, hsplit, ?_, ?_, ?_⟩
      · rw [← hlength, htake, List.length_append, List.length_singleton]
      · rw [page, hrows, MemoryStore.nextToken, List.length_map, if_pos ⟨hpos, hlength⟩, htake,
          List.map_append, List.map_singleton, List.getLast?_concat]
        rfl
      · rw [← filed_after h hlast]
        exact after_of_append (hrows.trans hsplit)

/-! ## 2. What a scan has passed -/

/-- A scan that began with one table has come to a bound in another one, and has seen some records
    on the way. -/
structure Passed (start t : Table Record) (bound : Option Bytes) (seen : List Record) : Prop where
  ascending : IdsAscend seen
  /-- What has been seen does not come again. -/
  behind : ∀ r ∈ seen, ∀ key, Past bound key → Bytes.ofText r.id < key
  /-- What was there at the start has been seen, or is still there and comes later. -/
  covered : ∀ key, (∃ r, start.get? key = some r) →
    (∃ r ∈ seen, Bytes.ofText r.id = key) ∨ Past bound key ∧ ∃ r, t.get? key = some r

/-- A scan that began with a table has seen every id of it, each id once. -/
structure Complete (start : Table Record) (seen : List Record) : Prop where
  ascending : IdsAscend seen
  covered : ∀ key, (∃ r, start.get? key = some r) → ∃ r ∈ seen, Bytes.ofText r.id = key

/-- What a scan has to do after a page with a token. -/
def Onward (start t : Table Record) (seen : List Record) : Option String → Prop
  | some token => Passed start t (some (Bytes.ofText token)) seen
  | none => Complete start seen

variable {start t : Table Record} {bound : Option Bytes} {seen : List Record}

theorem passed_start (t : Table Record) : Passed t t none [] where
  ascending := .nil
  behind _ h := nomatch h
  covered _ h := .inr ⟨fun _ h => (nomatch h), h⟩

/-- A write takes no id away, before the bound or after it. -/
theorem Passed.attempt (h : Passed start t bound seen) (r : Record) :
    Passed start (t.attempt r) bound seen := by
  refine ⟨h.ascending, h.behind, fun key hkey => ?_⟩
  refine (h.covered key hkey).imp_right fun ⟨hpast, c, hc⟩ => ⟨hpast, ?_⟩
  obtain ⟨d, hd, -⟩ := get?_attempt_of_some hc r
  exact ⟨d, hd⟩

theorem Onward.ascending {next : Option String} (h : Onward start t seen next) :
    IdsAscend seen := by
  cases next with
  | none => exact Complete.ascending h
  | some token => exact Passed.ascending h

theorem Onward.attempt {next : Option String} (h : Onward start t seen next) (r : Record) :
    Onward start (t.attempt r) seen next := by
  cases next with
  | none => exact h
  | some token => exact Passed.attempt h r

/-- Writes do not hold up a scan. -/
theorem Onward.attempts {next : Option String} (h : Onward start t seen next)
    (rs : List Record) : Onward start (rs.foldl Table.attempt t) seen next := by
  induction rs generalizing t with
  | nil => exact h
  | cons r rest ih => exact ih (h.attempt r)

/-- What comes after the bound can be appended to what has been seen. -/
theorem Passed.ascending_append (hfiled : t.Filed) (h : Passed start t bound seen)
    {rows : List (Bytes × Record)} (hrows : rows.Sublist (t.after bound)) :
    IdsAscend (seen ++ rows.map (·.2)) := by
  refine List.pairwise_append.2 ⟨h.ascending, ?_, ?_⟩
  · exact (idsAscend_after hfiled bound).sublist (hrows.map _)
  · intro a ha b hb
    obtain ⟨row, hrow, rfl⟩ := List.mem_map.1 hb
    have hafter := hrows.subset hrow
    rw [← filed_after hfiled hafter]
    exact h.behind a ha row.1 (mem_after.1 hafter).2

/-- What was there at the start has been seen or comes after the bound. -/
theorem Passed.covers (hfiled : t.Filed) (h : Passed start t bound seen) {key : Bytes}
    (hkey : ∃ r, start.get? key = some r) :
    (∃ r ∈ seen, Bytes.ofText r.id = key) ∨
      ∃ row ∈ t.after bound, row.1 = key ∧ Bytes.ofText row.2.id = key := by
  refine (h.covered key hkey).imp_right fun ⟨hpast, r, hr⟩ => ?_
  exact ⟨(key, r), mem_after.2 ⟨get?_eq_some.1 hr, hpast⟩, rfl, (hfiled.id_eq hr).symm⟩

/-- A page takes the scan from its token to the next one. -/
theorem Passed.page (hfiled : t.Filed) {token : Option String}
    (h : Passed start t (token.map Bytes.ofText) seen) {pageSize : Nat} (hpos : 0 < pageSize) :
    Onward start t (seen ++ (t.page token pageSize).records) (t.page token pageSize).next := by
  rcases page_cases hfiled hpos token with ⟨-, hpage⟩ | ⟨before, last, rest, hrows, -, hpage, hrest⟩
  · rw [hpage]
    refine ⟨h.ascending_append hfiled (.refl _), fun key hkey => ?_⟩
    rcases h.covers hfiled hkey with ⟨r, hr, hid⟩ | ⟨row, hrow, -, hid⟩
    · exact ⟨r, List.mem_append_left _ hr, hid⟩
    · exact ⟨row.2, List.mem_append_right _ (List.mem_map_of_mem hrow), hid⟩
  · rw [hpage]
    have hafter : before ++ [last] <+: t.after (token.map Bytes.ofText) :=
      ⟨rest, by rw [hrows, List.append_assoc, List.singleton_append]⟩
    have hasc := h.ascending_append hfiled hafter.sublist
    refine ⟨hasc, ?_, ?_⟩
    · intro r hr key hkey
      have hlast : Bytes.ofText last.2.id < key := hkey _ rfl
      rw [List.map_append, List.map_singleton, ← List.append_assoc] at hasc hr
      rcases List.mem_append.1 hr with hr | hr
      · have hbefore := (List.pairwise_append.1 hasc).2.2 r hr last.2 (List.mem_singleton_self _)
        exact List.lt_trans hbefore hlast
      · rwa [List.mem_singleton.1 hr]
    · intro key hkey
      rcases h.covers hfiled hkey with ⟨r, hr, hid⟩ | ⟨row, hrow, hrowkey, hid⟩
      · exact .inl ⟨r, List.mem_append_left _ hr, hid⟩
      · -- a row after the old bound is on the page or after the new one
        rw [hrows, List.append_cons] at hrow
        rcases List.mem_append.1 hrow with hrow | hrow
        · exact .inl ⟨row.2, List.mem_append_right _ (List.mem_map_of_mem hrow), hid⟩
        · rw [← hrest, mem_after, hrowkey] at hrow
          exact .inr ⟨hrow.2, row.2, get?_eq_some.2 (hrowkey ▸ hrow.1)⟩

end Table

namespace Store

/-! ## 3. Scans of a store -/

/-- Every record is under its own id; where rows are kept, each one is the wire form of a valid
    record. -/
def Sound : Store → Prop
  | memory m => m.records.Filed
  | rows b => ∀ row ∈ b.records.rows, ∃ r : Record, r.validate = .ok () ∧
      row = (Bytes.ofText r.id, r.toWire)

theorem sound_memory_empty : (memory .empty).Sound := Table.filed_empty

theorem Sound.keeps {s : Store} (h : s.Sound) : ∃ t, s.Keeps t := by
  cases s with
  | memory m => exact ⟨m.records, rfl, h⟩
  | rows b =>
    have : Nonempty Record := ⟨neutralRecord [] 0⟩
    choose! record hvalid hwire using h
    let t : Table Record := ⟨b.records.rows.map fun row => (row.1, record row),
      List.pairwise_map.2 b.records.ascending⟩
    refine ⟨t, Table.ext ?_, ?_, ?_⟩
    · rw [Table.rows_map, List.map_map]
      refine (List.map_id _).symm.trans (List.map_congr_left fun row hrow => ?_)
      have hsame : row.2 = (record row).toWire := congrArg Prod.snd (hwire row hrow)
      exact Prod.ext rfl hsame
    · intro row hrow
      obtain ⟨stored, hstored, rfl⟩ := List.mem_map.1 hrow
      exact congrArg Prod.fst (hwire stored hstored)
    · intro row hrow
      obtain ⟨stored, hstored, rfl⟩ := List.mem_map.1 hrow
      exact hvalid stored hstored

theorem Keeps.sound {s : Store} {t : Table Record} (h : s.Keeps t) : s.Sound := by
  cases s with
  | memory m =>
    obtain ⟨rfl, hfiled⟩ := h
    exact hfiled
  | rows b =>
    obtain ⟨hb, hfiled, hvalid⟩ := h
    intro row hrow
    rw [hb, Table.rows_map] at hrow
    obtain ⟨⟨key, r⟩, hr, rfl⟩ := List.mem_map.1 hrow
    exact ⟨r, hvalid _ hr, Prod.ext (hfiled _ hr) rfl⟩

theorem isRows_of_writeFailed {s s' : Store} {f : FailedRecord} (h : s.writeFailed f = .ok s') :
    s'.isRows = s.isRows := by
  cases s with
  | memory m =>
    cases h
    rfl
  | rows b =>
    rw [writeFailed] at h
    cases hb : b.writeFailed f with
    | error e =>
      rw [hb] at h
      cases h
    | ok b' =>
      rw [hb] at h
      cases h
      rfl

/-- What is written to a sound store leaves it sound. -/
theorem Sound.writeAll {s : Store} (h : s.Sound) {rs : List Record}
    (hrs : ∀ r ∈ rs, s.Takes r) : (s.writeAll rs).Sound := by
  obtain ⟨t, ht⟩ := h.keeps
  exact (ht.attempts hrs).sound

/-- No page comes after the last one of a scan. -/
def ScanEnded (pages : List (Store × Page)) : Prop := pages.getLast?.bind (·.2.next) = none

/-- A scan that began with a store has run through these pages, each in the store from which it
    was read. -/
structure Thorough (start : Store) (pages : List (Store × Page)) : Prop where
  /-- No id comes twice. -/
  ascending : IdsAscend (pages.flatMap (·.2.records))
  /-- Every record is the one that was under its id. -/
  stored : ∀ p ∈ pages, ∀ r ∈ p.2.records, p.1.read r.id = .ok (some r)
  /-- At the end every id of the beginning has come. -/
  complete : ScanEnded pages → ∀ id r, start.read id = .ok (some r) →
    ∃ a ∈ pages.flatMap (·.2.records), a.id = id

theorem scan_eq_cons (pageSize : Nat) (s : Store) (token : Option String)
    (later : List (List Record)) :
    ∃ rest, s.scan pageSize token later = (s, s.list token pageSize) :: rest := by
  cases later <;> exact ⟨_, rfl⟩

/-- A page holds what is stored. -/
theorem Keeps.read_of_mem_list {s : Store} {t : Table Record} (h : s.Keeps t)
    {token : Option String} {pageSize : Nat} {r : Record}
    (hr : r ∈ (s.list token pageSize).records) : s.read r.id = .ok (some r) := by
  rw [h.list] at hr
  obtain ⟨row, hrow, rfl⟩ := List.mem_map.1 hr
  have hmem := (Table.mem_after.1 (List.mem_of_mem_take hrow)).1
  rw [h.read, ← h.filed row hmem, Table.get?_eq_some.2 hmem]

/-- A scan that began with a table has seen some records, and then it runs through these pages. -/
structure RunsOn (start : Table Record) (seen : List Record) (pages : List (Store × Page)) :
    Prop where
  ascending : IdsAscend (seen ++ pages.flatMap (·.2.records))
  stored : ∀ p ∈ pages, ∀ r ∈ p.2.records, p.1.read r.id = .ok (some r)
  complete : ScanEnded pages →
    Table.Complete start (seen ++ pages.flatMap (·.2.records))

theorem Keeps.runsOn_page {start : Table Record} {s : Store} {t : Table Record} (h : s.Keeps t)
    {token : Option String} {pageSize : Nat} {seen : List Record}
    (hpage : Table.Onward start t (seen ++ (s.list token pageSize).records)
      (s.list token pageSize).next) : RunsOn start seen [(s, s.list token pageSize)] := by
  constructor
  case ascending =>
    rw [List.flatMap_singleton]
    exact hpage.ascending
  case stored => exact List.forall_mem_singleton.2 fun r => h.read_of_mem_list
  case complete =>
    intro hend
    have hnext : (s.list token pageSize).next = none := hend
    rw [hnext] at hpage
    rw [List.flatMap_singleton]
    exact hpage

theorem Keeps.runsOn_cons {start : Table Record} {s : Store} {t : Table Record} (h : s.Keeps t)
    {token : Option String} {pageSize : Nat} {seen : List Record} {p : Store × Page}
    {rest : List (Store × Page)}
    (hrest : RunsOn start (seen ++ (s.list token pageSize).records) (p :: rest)) :
    RunsOn start seen ((s, s.list token pageSize) :: p :: rest) := by
  obtain ⟨hasc, hstored, hcomplete⟩ := hrest
  rw [List.append_assoc] at hasc hcomplete
  exact ⟨hasc, List.forall_mem_cons.2 ⟨fun r => h.read_of_mem_list, hstored⟩, hcomplete⟩

/-- A scan from any token on, when some records have been seen before. -/
theorem Keeps.runsOn_scan {start : Table Record} {s : Store} {t : Table Record} (h : s.Keeps t)
    {token : Option String} {seen : List Record}
    (hseen : Table.Passed start t (token.map Bytes.ofText) seen) {pageSize : Nat}
    (hpos : 0 < pageSize) {later : List (List Record)}
    (hlater : ∀ rs ∈ later, ∀ r ∈ rs, s.Takes r) :
    RunsOn start seen (s.scan pageSize token later) := by
  induction later generalizing s t token seen with
  | nil =>
    have hpage := hseen.page h.filed hpos
    rw [← h.list] at hpage
    exact h.runsOn_page hpage
  | cons rs later ih =>
    have hpage := hseen.page h.filed hpos
    rw [← h.list] at hpage
    rw [List.forall_mem_cons] at hlater
    rw [Store.scan]
    split
    · exact h.runsOn_page hpage
    · rename_i n hnext
      rw [hnext] at hpage
      have hpassed : start.Passed _ ((some n).map Bytes.ofText) _ := hpage.attempts rs
      have hrest := ih (h.attempts hlater.1) hpassed fun rs' hrs' r hr =>
        takes_writeAll.2 (hlater.2 rs' hrs' r hr)
      obtain ⟨rest, hcons⟩ := scan_eq_cons pageSize (s.writeAll rs) (some n) later
      rw [hcons] at hrest ⊢
      exact h.runsOn_cons hrest

/-- A scan of a sound store is thorough, whatever others write between its pages. -/
theorem Sound.thorough_scan {s : Store} (h : s.Sound) {pageSize : Nat} (hpos : 0 < pageSize)
    {later : List (List Record)} (hlater : ∀ rs ∈ later, ∀ r ∈ rs, s.Takes r) :
    s.Thorough (s.scan pageSize none later) := by
  obtain ⟨t, ht⟩ := h.keeps
  have hstart : t.Passed t ((none : Option String).map Bytes.ofText) [] := Table.passed_start t
  obtain ⟨hasc, hstored, hcomplete⟩ := ht.runsOn_scan hstart hpos hlater
  refine ⟨hasc, hstored, fun hend id r hr => ?_⟩
  rw [ht.read] at hr
  obtain ⟨a, ha, hid⟩ := (hcomplete hend).covered _ ⟨r, Except.ok.inj hr⟩
  exact ⟨a, ha, Bytes.ofText_inj.1 hid⟩

/-- Without writers a scan has a page for every `pageSize` rows that are left, and one for the
    rest, which may be empty. -/
theorem Keeps.length_scan {s : Store} {t : Table Record} (h : s.Keeps t) {pageSize : Nat}
    (hpos : 0 < pageSize) (token : Option String) {limit : Nat}
    (hlimit : (t.after (token.map Bytes.ofText)).length / pageSize ≤ limit) :
    (s.scan pageSize token (List.replicate limit [])).length =
        (t.after (token.map Bytes.ofText)).length / pageSize + 1 ∧
      ScanEnded (s.scan pageSize token (List.replicate limit [])) := by
  induction limit generalizing token with
  | zero =>
    rcases Table.page_cases h.filed hpos token with ⟨hlt, hpage⟩ | ⟨before, last, rest, hrows, hfull, -⟩
    · rw [← h.list] at hpage
      rw [List.replicate_zero, Store.scan, hpage, Nat.div_eq_of_lt hlt]
      exact ⟨rfl, rfl⟩
    · rw [hrows, List.length_append, List.length_cons, Nat.div_le_iff_le_mul_add_pred hpos] at hlimit
      omega
  | succ limit ih =>
    rw [List.replicate_succ, Store.scan]
    rcases Table.page_cases h.filed hpos token with
      ⟨hlt, hpage⟩ | ⟨before, last, rest, hrows, hfull, hpage, hrest⟩
    · rw [← h.list] at hpage
      rw [hpage, Nat.div_eq_of_lt hlt]
      exact ⟨rfl, rfl⟩
    · rw [← h.list] at hpage
      have hlength : (t.after (token.map Bytes.ofText)).length = rest.length + pageSize := by
        rw [hrows, List.length_append, List.length_cons]
        omega
      -- the page takes its rows from what is left, and one from the number of pages
      rw [hlength, Nat.add_div_right _ hpos] at hlimit ⊢
      have hafter : t.after ((some last.2.id).map Bytes.ofText) = rest := hrest
      have hlater := ih (some last.2.id) (by rw [hafter]; exact Nat.le_of_succ_le_succ hlimit)
      rw [hafter] at hlater
      obtain ⟨pages, hcons⟩ := scan_eq_cons pageSize s (some last.2.id) (List.replicate limit [])
      rw [hcons, List.length_cons] at hlater
      rw [hpage]
      show (_ :: s.scan pageSize (some last.2.id) (List.replicate limit [])).length = _ ∧
        ScanEnded (_ :: s.scan pageSize (some last.2.id) (List.replicate limit []))
      rw [hcons, List.length_cons, List.length_cons, hlater.1]
      exact ⟨rfl, hlater.2⟩

end Store

end SignedRecords
