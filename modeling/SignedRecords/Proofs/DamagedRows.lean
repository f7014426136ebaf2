import Mathlib.Data.List.Perm.Subperm
import SignedRecords.Proofs.LossyText
import SignedRecords.Proofs.Scans

/-!
# Scans over damaged rows

A tree of rows may hold anything: keys that are no ids, keys that are no text, values that are no
records. A scan passes over the rows that it cannot read, and its token is the text of the last key
that it has passed.

A key that can be read is ASCII, and so it comes before a key exactly when it comes before the form
of the key's text. Therefore a scan never leaves out a row that can be read and never comes to one
twice, wherever its tokens lead. But a token may lie before its key, by as many rows as there are
between the two. Pages that are larger than every such setback go on; a page that is not can lead
the scan back to a token where it has been, and then it never ends.

Main statements: `RowStore.page_readable`, `Store.endsIn_iff_nodup` and
`Store.endsIn_of_setback`.
-/

namespace SignedRecords

/-- The rows up to a key and those after it are all rows. -/
theorem Table.filter_append_after {α : Type} (t : Table α) (key : Bytes) :
    (t.rows.filter fun row => ¬key < row.1) ++ t.after (some key) = t.rows := by
  have hasc := t.ascending
  show _ ++ t.rows.filter (fun row => key < row.1) = _
  generalize t.rows = rows at hasc
  induction rows with
  | nil => rfl
  | cons first rest ih =>
    rw [List.pairwise_cons] at hasc
    by_cases hlt : key < first.1
    · have hafter : ∀ row ∈ first :: rest, key < row.1 :=
        List.forall_mem_cons.2 ⟨hlt, fun row hrow => List.lt_trans hlt (hasc.1 row hrow)⟩
      rw [List.filter_eq_nil_iff.2 (by simpa using hafter),
        List.filter_eq_self.2 (by simpa using hafter), List.nil_append]
    · simp only [List.filter_cons, hlt, not_false_eq_true, decide_true, decide_false, if_true,
        List.cons_append, ih hasc.2, Bool.false_eq_true, if_false]

namespace RowStore

/-! ## 1. Rows that can be read -/

/-- The record of a row that can be read. -/
def read? (row : Bytes × Bytes) : Option Record := (readRow row.1 row.2).toOption

/-- The records of all rows that can be read, in the order of their keys. -/
def readable (b : RowStore) : List Record := b.records.rows.filterMap read?

/-- Those of the rows up to a bound. -/
def readableTo (b : RowStore) : Option Bytes → List Record
  | none => []
  | some key => (b.records.rows.filter fun row => ¬key < row.1).filterMap read?

/-- What a scan has come to when its next token is this one. -/
def readableBy (b : RowStore) : Option String → List Record
  | none => b.readable
  | some next => b.readableTo (some (Bytes.ofText next))

variable {b : RowStore}

/-- The key of a row that can be read is ASCII. -/
theorem ascii_of_read? {row : Bytes × Bytes} {r : Record} (h : read? row = some r) :
    row.1.Ascii := by
  unfold read? readRow at h
  cases hid : readRecordId (Utf8.lossy row.1) with
  | error e => simp [hid, Except.toOption] at h
  | ok owner =>
    have htext := ascii_of_readRecordId hid
    rwa [(Utf8.sameAscii_lossy row.1).eq_of_ascii htext]

theorem readableTo_append_after (b : RowStore) (bound : Option Bytes) :
    b.readableTo bound ++ (b.records.after bound).filterMap read? = b.readable := by
  cases bound with
  | none => rfl
  | some key =>
    rw [readableTo, ← List.filterMap_append, Table.filter_append_after]
    rfl

/-- A token stands for its key as far as rows go that can be read. -/
theorem readableTo_lossy (b : RowStore) (key : Bytes) :
    b.readableTo (some (Bytes.ofText (Utf8.lossy key))) = b.readableTo (some key) := by
  unfold readableTo
  dsimp only
  rw [List.filterMap_filter, List.filterMap_filter]
  refine List.filterMap_congr fun row _ => ?_
  cases hread : read? row with
  | none => simp
  | some r => simp [(Utf8.sameAscii_lossy key).lt_iff (ascii_of_read? hread)]

/-! ## 2. Pages -/

/-- A page is either the last one, with all the rows that are left, or a full one whose token is
    the text of its last key. -/
theorem list_cases (b : RowStore) {pageSize : Nat} (hpos : 0 < pageSize) (token : Option String) :
    ((b.records.after (token.map Bytes.ofText)).length < pageSize ∧
        b.list token pageSize =
          ⟨(b.records.after (token.map Bytes.ofText)).filterMap read?, none⟩) ∨
      ∃ before last rest, b.records.after (token.map Bytes.ofText) = before ++ last :: rest ∧
        before.length + 1 = pageSize ∧
        b.list token pageSize =
          ⟨(before ++ [last]).filterMap read?, some (Utf8.lossy last.1)⟩ ∧
        b.records.after (some last.1) = rest := by
  generalize hrows : b.records.after (token.map Bytes.ofText) = rows
  by_cases hlt : rows.length < pageSize
  · left
    refine ⟨hlt, ?_⟩
    rw [list, hrows, List.take_of_length_le (Nat.le_of_lt hlt),
      if_neg (fun hfull => Nat.ne_of_lt hlt hfull.2)]
    rfl
  · right
    have hlength : (rows.take pageSize).length = pageSize :=
      List.length_take_of_le (Nat.le_of_not_lt hlt)
    obtain hnil | ⟨before, last, htake⟩ := List.eq_nil_or_concat (rows.take pageSize)
    · rw [hnil] at hlength
      exact absurd hlength (Nat.ne_of_lt hpos)
    · rw [List.concat_eq_append] at htake
      have hsplit : rows = before ++ last :: rows.drop pageSize := by
        rw [List.append_cons, ← htake, List.take_append_drop]
      refine ⟨before, last, rows.drop pageSize, hsplit, ?_, ?_, ?_⟩
      · rw [← hlength, htake, List.length_append, List.length_singleton]
      · rw [list, hrows, if_pos ⟨hpos, hlength⟩, htake, List.getLast?_concat]
        rfl
      · exact Table.after_of_append (hrows.trans hsplit)

/-- A page holds the rows that can be read between its token and the next one. -/
theorem page_readable (b : RowStore) {pageSize : Nat} (hpos : 0 < pageSize)
    (token : Option String) :
    b.readableTo (token.map Bytes.ofText) ++ (b.list token pageSize).records =
      b.readableBy (b.list token pageSize).next := by
  have hall := b.readableTo_append_after (token.map Bytes.ofText)
  rcases b.list_cases hpos token with ⟨-, hpage⟩ | ⟨before, last, rest, hrows, -, hpage, hrest⟩
  · rw [hpage]
    exact hall
  · rw [hpage]
    show _ ++ _ = b.readableTo (some (Bytes.ofText (Utf8.lossy last.1)))
    -- both sides are followed by the rows after the last key
    have hlast := b.readableTo_append_after (some last.1)
    rw [hrest, ← hall, hrows, List.append_cons, List.filterMap_append, ← List.append_assoc] at hlast
    rw [readableTo_lossy, List.append_cancel_right hlast]

/-- The next token is the text of a key. -/
theorem next_of_list {pageSize : Nat} (hpos : 0 < pageSize) {token : Option String}
    {next : String} (h : (b.list token pageSize).next = some next) :
    next ∈ b.records.rows.map fun row => Utf8.lossy row.1 := by
  rcases b.list_cases hpos token with ⟨-, hpage⟩ | ⟨before, last, rest, hrows, -, hpage, -⟩
  · rw [hpage] at h
    cases h
  · rw [hpage] at h
    cases h
    refine List.mem_map.2 ⟨last, ?_, rfl⟩
    have hmem : last ∈ b.records.after (token.map Bytes.ofText) :=
      hrows ▸ List.mem_append_right _ List.mem_cons_self
    exact (Table.mem_after.1 hmem).1

/-! ## 3. Setbacks -/

/-- The number of rows by which the text of a key lies before the key. -/
def setback (b : RowStore) (key : Bytes) : Nat :=
  ((b.records.after (some (Bytes.ofText (Utf8.lossy key)))).filter fun row => ¬key < row.1).length

theorem length_after_lossy (b : RowStore) (key : Bytes) :
    (b.records.after (some (Bytes.ofText (Utf8.lossy key)))).length ≤
      (b.records.after (some key)).length + b.setback key := by
  rw [List.length_eq_length_filter_add (fun row => decide (key < row.1))]
  refine Nat.add_le_add ?_
    (Nat.le_of_eq (congrArg _ (List.filter_congr fun row _ => decide_not.symm)))
  exact (List.filter_sublist.filter _).length_le

/-- A key that is text is its own token. -/
theorem setback_of_text (b : RowStore) (text : String) : b.setback (Bytes.ofText text) = 0 := by
  rw [setback, Utf8.lossy_ofText, List.length_eq_zero_iff, List.filter_eq_nil_iff]
  intro row hrow
  simpa using (Table.mem_after.1 hrow).2 _ rfl

end RowStore

namespace Store

/-! ## 4. Ends -/

/-- The scan from a token on ends after so many pages, when nobody writes meanwhile. -/
inductive EndsIn (s : Store) (pageSize : Nat) : Option String → Nat → Prop where
  | last {token : Option String} (h : (s.list token pageSize).next = none) :
      EndsIn s pageSize token 1
  | more {token : Option String} {next : String} {n : Nat}
      (h : (s.list token pageSize).next = some next) (hrest : EndsIn s pageSize (some next) n) :
      EndsIn s pageSize token (n + 1)

variable {s : Store} {pageSize : Nat} {token : Option String}

theorem EndsIn.unique {m n : Nat} (hm : s.EndsIn pageSize token m)
    (hn : s.EndsIn pageSize token n) :
    m = n := by
  induction hm generalizing n with
  | last h =>
    cases hn with
    | last => rfl
    | more h' => cases h.symm.trans h'
  | more h hrest ih =>
    cases hn with
    | last h' => cases h.symm.trans h'
    | more h' hrest' =>
      cases h.symm.trans h'
      rw [ih hrest']

theorem pages_of_last (h : (s.list token pageSize).next = none) (limit : Nat) :
    s.pages pageSize token (limit + 1) = [s.list token pageSize] := by
  rw [pages, h]

theorem pages_of_more {next : String} (h : (s.list token pageSize).next = some next)
    (limit : Nat) : s.pages pageSize token (limit + 1) =
      s.list token pageSize :: s.pages pageSize (some next) limit := by
  rw [pages, h]

/-- The scan has ended within some pages, or all of them have had a token. -/
theorem endsIn_or_pages (s : Store) (pageSize : Nat) (token : Option String) (limit : Nat) :
    (∃ n ≤ limit, s.EndsIn pageSize token n) ∨
      (s.pages pageSize token limit).length = limit ∧
        ∀ page ∈ s.pages pageSize token limit, page.next ≠ none := by
  induction limit generalizing token with
  | zero => exact .inr ⟨rfl, fun page h => nomatch h⟩
  | succ limit ih =>
    cases hnext : (s.list token pageSize).next with
    | none => exact .inl ⟨1, Nat.le_add_left 1 limit, .last hnext⟩
    | some next =>
      rcases ih (some next) with ⟨n, hn, hends⟩ | ⟨hlength, hall⟩
      · exact .inl ⟨n + 1, Nat.succ_le_succ hn, .more hnext hends⟩
      · right
        rw [pages_of_more hnext, List.length_cons, hlength, List.forall_mem_cons, hnext]
        exact ⟨rfl, Option.some_ne_none next, hall⟩

/-- After a page of a scan that ends, fewer pages are left than before it. -/
theorem EndsIn.of_mem_pages {n : Nat} (h : s.EndsIn pageSize token n) {limit : Nat} {page : Page}
    (hpage : page ∈ s.pages pageSize token limit) {next : String} (hnext : page.next = some next) :
    ∃ m < n, s.EndsIn pageSize (some next) m := by
  induction limit generalizing token n with
  | zero => cases hpage
  | succ limit ih =>
    cases h with
    | last h =>
      rw [pages_of_last h, List.mem_singleton] at hpage
      cases (hpage ▸ hnext).symm.trans h
    | more h hrest =>
      rw [pages_of_more h, List.mem_cons] at hpage
      rcases hpage with rfl | hpage
      · cases h.symm.trans hnext
        exact ⟨_, Nat.lt_succ_self _, hrest⟩
      · obtain ⟨m, hm, hends⟩ := ih hrest hpage
        exact ⟨m, Nat.lt_succ_of_lt hm, hends⟩

/-- A scan that ends has no token twice. -/
theorem EndsIn.nodup {n : Nat} (h : s.EndsIn pageSize token n) (limit : Nat) :
    ((s.pages pageSize token limit).map (·.next)).Nodup := by
  induction limit generalizing token n with
  | zero => exact .nil
  | succ limit ih =>
    cases h with
    | last h =>
      rw [pages_of_last h]
      exact List.nodup_singleton _
    | more h hrest =>
      rw [pages_of_more h, List.map_cons, List.nodup_cons]
      refine ⟨fun hmem => ?_, ih hrest⟩
      obtain ⟨page, hpage, hnext⟩ := List.mem_map.1 hmem
      obtain ⟨m, hm, hends⟩ := hrest.of_mem_pages hpage (hnext.trans h)
      exact Nat.ne_of_lt hm (hends.unique hrest)

theorem exists_list_of_mem_pages {limit : Nat} {page : Page}
    (h : page ∈ s.pages pageSize token limit) : ∃ t, page = s.list t pageSize := by
  induction limit generalizing token with
  | zero => cases h
  | succ limit ih =>
    cases hnext : (s.list token pageSize).next with
    | none =>
      rw [pages_of_last hnext, List.mem_singleton] at h
      exact ⟨token, h⟩
    | some next =>
      rw [pages_of_more hnext, List.mem_cons] at h
      exact h.elim (fun h => ⟨token, h⟩) ih

/-! ## 5. Scans of rows -/

variable {b : RowStore}

/-- A scan of rows ends if and only if no token comes twice; then it has at most one page more than
    there are rows. -/
theorem endsIn_iff_nodup (hpos : 0 < pageSize) :
    (∃ n ≤ b.records.size + 1, (rows b).EndsIn pageSize none n) ↔
      (((rows b).pages pageSize none (b.records.size + 1)).map (·.next)).Nodup := by
  constructor
  · rintro ⟨n, -, h⟩
    exact h.nodup _
  · intro hnodup
    refine ((rows b).endsIn_or_pages pageSize none (b.records.size + 1)).resolve_right ?_
    rintro ⟨hlength, hall⟩
    -- every page has the text of a key for its token, and there are not so many keys
    have hsub : ((rows b).pages pageSize none (b.records.size + 1)).map (·.next) ⊆
        b.records.rows.map fun row => some (Utf8.lossy row.1) := by
      intro next hnext
      obtain ⟨page, hpage, rfl⟩ := List.mem_map.1 hnext
      obtain ⟨token, rfl⟩ := exists_list_of_mem_pages hpage
      obtain ⟨next, hnext⟩ := Option.ne_none_iff_exists'.1 (hall _ hpage)
      obtain ⟨row, hrow, htext⟩ := List.mem_map.1 (RowStore.next_of_list hpos hnext)
      exact List.mem_map.2 ⟨row, hrow, by rw [hnext, htext]⟩
    have hle := (hnodup.subperm hsub).length_le
    rw [List.length_map, List.length_map, hlength] at hle
    exact Nat.not_succ_le_self _ hle

/-- Pages that are larger than every setback bring a scan to its end. -/
theorem endsIn_of_setback {d : Nat} (hd : ∀ row ∈ b.records.rows, b.setback row.1 ≤ d)
    (hsize : d < pageSize) (token : Option String) :
    ∃ n ≤ (b.records.after (token.map Bytes.ofText)).length / (pageSize - d) + 1,
      (rows b).EndsIn pageSize token n := by
  have hpos : 0 < pageSize := Nat.zero_lt_of_lt hsize
  generalize hm : (b.records.after (token.map Bytes.ofText)).length = m
  induction m using Nat.strongRecOn generalizing token with
  | ind m ih =>
    rcases b.list_cases hpos token with
      ⟨-, hpage⟩ | ⟨before, last, rest, hrows, hfull, hpage, hrest⟩
    · exact ⟨1, Nat.le_add_left 1 _, .last (congrArg Page.next hpage)⟩
    · have hlast : last ∈ b.records.rows := by
        have hmem : last ∈ b.records.after (token.map Bytes.ofText) :=
          hrows ▸ List.mem_append_right _ List.mem_cons_self
        exact (Table.mem_after.1 hmem).1
      have hlength : m = rest.length + pageSize := by
        rw [← hm, hrows, List.length_append, List.length_cons]
        omega
      have hleft := b.length_after_lossy last.1
      rw [hrest] at hleft
      have hback := hd last hlast
      generalize hleft' : (b.records.after (some (Bytes.ofText (Utf8.lossy last.1)))).length = left
        at hleft
      -- the page takes more rows than its token gives back
      obtain ⟨n, hn, hends⟩ := ih left (by omega) (some (Utf8.lossy last.1)) hleft'
      refine ⟨n + 1, Nat.succ_le_succ (Nat.le_trans hn ?_), .more (congrArg Page.next hpage) hends⟩
      rw [← Nat.add_div_right _ (Nat.sub_pos_of_lt hsize)]
      exact Nat.div_le_div_right (by omega)

/-- The pages of a scan hold rows that can be read, one after the other; at the end of the scan,
    all of them. -/
theorem pages_readable (hpos : 0 < pageSize) (token : Option String) (limit : Nat) :
    ∃ left, b.readable = b.readableTo (token.map Bytes.ofText) ++
        ((rows b).pages pageSize token limit).flatMap (·.records) ++ left ∧
      ∀ n ≤ limit, (rows b).EndsIn pageSize token n →
        left = [] ∧ ((rows b).pages pageSize token limit).length = n := by
  induction limit generalizing token with
  | zero =>
    refine ⟨(b.records.after (token.map Bytes.ofText)).filterMap RowStore.read?, ?_, ?_⟩
    · show _ = _ ++ [] ++ _
      rw [List.append_nil, b.readableTo_append_after]
    · intro n hn hends
      cases hends <;> cases hn
  | succ limit ih =>
    have hpage := b.page_readable hpos token
    cases hnext : (b.list token pageSize).next with
    | none =>
      rw [hnext] at hpage
      rw [pages_of_last (s := rows b) hnext]
      refine ⟨[], ?_, fun n hn hends => ⟨rfl, ?_⟩⟩
      · rw [List.append_nil, List.flatMap_singleton]
        exact hpage.symm
      · exact (EndsIn.last (s := rows b) hnext).unique hends
    | some next =>
      rw [hnext] at hpage
      obtain ⟨left, hall, hleft⟩ := ih (some next)
      rw [pages_of_more (s := rows b) hnext]
      refine ⟨left, ?_, fun n hn hends => ?_⟩
      · rw [List.flatMap_cons, ← List.append_assoc]
        show _ = _ ++ (b.list token pageSize).records ++ _ ++ left
        rw [hpage]
        exact hall
      · cases hends with
        | last h => cases hnext.symm.trans h
        | more h hrest =>
          cases hnext.symm.trans h
          obtain ⟨hnil, hlength⟩ := hleft _ (Nat.le_of_succ_le_succ hn) hrest
          exact ⟨hnil, by rw [List.length_cons, hlength]⟩

end Store

end SignedRecords
