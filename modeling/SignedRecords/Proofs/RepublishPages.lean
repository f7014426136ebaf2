import SignedRecords.Proofs.DamagedRows
import SignedRecords.Proofs.RepublishScans

/-!
# A republish over damaged rows

A run that nobody writes beside goes through the pages of a scan of its rows. So it announces rows
that can be read, one after the other, and it ends exactly when the scan does, unless the store
refuses it a page: every page, every announcement and every further attempt takes one event, and
there are only so many of them.

Main statements: `reads_step`, `reads_after` and `damaged_rows`.
-/

namespace SignedRecords

namespace Store

/-! ## 1. Scans under way -/

/-- So many pages lead from the beginning to a token. -/
inductive Reaches (s : Store) (pageSize : Nat) : Nat → Option String → Prop where
  | start : Reaches s pageSize 0 none
  | page {k : Nat} {token : Option String} {next : String} (h : Reaches s pageSize k token)
      (hnext : (s.list token pageSize).next = some next) : Reaches s pageSize (k + 1) (some next)

variable {s : Store} {pageSize k n : Nat} {token : Option String}

/-- What ends from a token that has been reached ends from the beginning. -/
theorem Reaches.endsIn (h : s.Reaches pageSize k token) (hends : s.EndsIn pageSize token n) :
    s.EndsIn pageSize none (n + k) := by
  induction h generalizing n with
  | start => exact hends
  | page h hnext ih => exact Nat.succ_add_eq_add_succ n _ ▸ ih (.more hnext hends)

/-- A scan that ends from the beginning still ends from a token that it has reached. -/
theorem Reaches.left (h : s.Reaches pageSize k token) (hends : s.EndsIn pageSize none n) :
    ∃ m, n = m + k ∧ s.EndsIn pageSize token m := by
  induction h with
  | start => exact ⟨n, rfl, hends⟩
  | page h hnext ih =>
    obtain ⟨m, rfl, hrest⟩ := ih
    cases hrest with
    | last hnone => cases hnone.symm.trans hnext
    | more hnext' hrest =>
      cases hnext'.symm.trans hnext
      exact ⟨_, Nat.succ_add_eq_add_succ _ _, hrest⟩

end Store

/-! ## 2. What a run has read -/

/-- The size of the pages that a run asks for. -/
def RepublishConfig.pageSize (config : RepublishConfig) : Nat := max config.batchSize 1

theorem RepublishConfig.pageSize_pos (config : RepublishConfig) : 0 < config.pageSize :=
  Nat.lt_of_lt_of_le Nat.zero_lt_one (Nat.le_max_right _ 1)

/-- The events that failures still take, when `attempts` have been made at the first one: the other
    attempts, and an entry into the ledger. -/
def RepublishConfig.toSettle (config : RepublishConfig) (attempts : Nat) : List Record → Nat
  | [] => 0
  | _ :: rest => rest.length * config.attempts + (1 + (config.maxAttempts - attempts))

/-- The events that so many pages with some records can take. -/
def RepublishConfig.allowance (config : RepublishConfig) (pages : Nat) (announced : List Record) :
    Nat :=
  1 + pages + announced.length * (1 + config.attempts)

/-- A run over rows has read so many pages and announced what can be read in them; the next token
    is this one. -/
def RowStore.Through (b : RowStore) (pageSize pages : Nat) (announced : List Record) :
    Option String → Prop
  | some next => (Store.rows b).Reaches pageSize pages (some next) ∧
      announced = b.readableTo (some (Bytes.ofText next))
  | none => (Store.rows b).EndsIn pageSize none pages ∧ announced = b.readable

/-- A run over rows has asked for its last page: the scan has come to its end, or the store has
    refused the page. -/
inductive RowStore.Paged (b : RowStore) (pageSize : Nat) (announced : List Record)
    (refused : Prop) : Nat → Prop where
  | whole {pages : Nat} (h : b.Through pageSize pages announced none) :
      Paged b pageSize announced refused pages
  | refused {pages : Nat} {token : Option String} (hrefused : refused)
      (hreach : (Store.rows b).Reaches pageSize pages token)
      (h : announced = b.readableTo (token.map Bytes.ofText)) :
      Paged b pageSize announced refused (pages + 1)

/-- What a phase of a run over rows means for the records that it has announced, and for the number
    of the events that it has waited for. -/
inductive Reads (b : RowStore) (config : RepublishConfig) (announced : List Record)
    (refused : Prop) (failures : List Record) (n : Nat) :
    RepublishPhase → RepublishWait → Prop where
  | counting (hnone : announced = []) (hno : failures = []) (hn : n = 0) :
      Reads b config announced refused failures n .counting .count
  | listing {pages : Nat} {token : Option String}
      (hreach : (Store.rows b).Reaches config.pageSize pages token)
      (h : announced = b.readableTo (token.map Bytes.ofText))
      (hn : n + failures.length * config.attempts ≤ config.allowance pages announced) :
      Reads b config announced refused failures n (.listing token) (.list token config.pageSize)
  | announcing {pages : Nat} {waiting all : List (Nat × Record)} {next : Option String}
      (hsome : waiting ≠ []) (h : b.Through config.pageSize pages announced next)
      (hn : n + failures.length * config.attempts + waiting.length * (1 + config.attempts) ≤
        config.allowance pages announced) :
      Reads b config announced refused failures n (.announcing waiting next) (.puts all)
  | retrying {pages : Nat} {record : Record} {attempts : Nat} {rest : List Record}
      (hmore : attempts < config.maxAttempts) (h : b.Paged config.pageSize announced refused pages)
      (hn : n + config.toSettle attempts (record :: rest) ≤ config.allowance pages announced) :
      Reads b config announced refused failures n (.retrying record attempts rest) (.retry record)
  | noting {pages : Nat} {rest : List Record} {failed : FailedRecord}
      (h : b.Paged config.pageSize announced refused pages)
      (hn : n + (rest.length * config.attempts + 1) ≤ config.allowance pages announced) :
      Reads b config announced refused failures n (.noting rest) (.note failed)
  | ended {pages : Nat} (h : b.Paged config.pageSize announced refused pages)
      (hn : n ≤ config.allowance pages announced) :
      Reads b config announced refused failures n .ended .nothing

/-! ## 3. Steps -/

section Steps

variable {b : RowStore} {config : RepublishConfig} {announced : List Record} {refused : Prop}
  {failures : List Record} {n pages : Nat} {r : Republish}

theorem RepublishConfig.toSettle_one_le (config : RepublishConfig) (failures : List Record) :
    config.toSettle 1 failures ≤ failures.length * config.attempts := by
  cases failures with
  | nil => exact Nat.zero_le _
  | cons record rest =>
    rw [toSettle, List.length_cons, Nat.succ_mul]
    refine Nat.add_le_add_left ?_ _
    unfold attempts
    omega

/-- An attempt that fails is one of those that were left. -/
theorem RepublishConfig.toSettle_succ {attempts : Nat} (h : attempts < config.maxAttempts)
    (record : Record) (rest : List Record) :
    config.toSettle (attempts + 1) (record :: rest) + 1 =
      config.toSettle attempts (record :: rest) := by
  simp only [toSettle]
  omega

/-- A page read at a token takes the run on. -/
theorem RowStore.through_page {pageSize : Nat} (hpos : 0 < pageSize) {token : Option String}
    (hreach : (Store.rows b).Reaches pageSize pages token)
    (h : announced = b.readableTo (token.map Bytes.ofText)) :
    b.Through pageSize (pages + 1) (announced ++ (b.list token pageSize).records)
      (b.list token pageSize).next := by
  have hpage := b.page_readable hpos token
  rw [← h] at hpage
  cases hnext : (b.list token pageSize).next with
  | none =>
    rw [hnext] at hpage
    exact ⟨Nat.add_comm 1 pages ▸ hreach.endsIn (.last hnext), hpage⟩
  | some next =>
    rw [hnext] at hpage
    exact ⟨.page hreach hnext, hpage⟩

theorem RowStore.Paged.imp {pageSize : Nat} {refused' : Prop} (himp : refused → refused')
    (h : b.Paged pageSize announced refused pages) : b.Paged pageSize announced refused' pages := by
  cases h with
  | whole h => exact .whole h
  | refused hrefused hreach h => exact .refused (himp hrefused) hreach h

theorem reads_settle (hconfig : r.config = config)
    (h : b.Paged config.pageSize announced refused pages) {attempts : Nat} {left : List Record}
    (hn : n + config.toSettle attempts left ≤ config.allowance pages announced) :
    Reads b config announced refused failures n (r.settle attempts left).1.phase
      (r.settle attempts left).2 := by
  subst hconfig
  cases left with
  | nil => exact .ended h hn
  | cons record rest =>
    by_cases hlt : attempts < r.config.maxAttempts
    · rw [Republish.settle_of_lt hlt]
      exact .retrying hlt h hn
    · rw [Republish.settle_of_not_lt hlt]
      rw [RepublishConfig.toSettle, Nat.sub_eq_zero_of_le (Nat.le_of_not_lt hlt)] at hn
      exact .noting h hn

theorem reads_endPaging (hconfig : r.config = config)
    (h : b.Paged config.pageSize announced refused pages)
    (hn : n + r.failures.length * config.attempts ≤ config.allowance pages announced) :
    Reads b config announced refused r.endPaging.1.failures n r.endPaging.1.phase
      r.endPaging.2 := by
  refine reads_settle (r := { r with failures := [] }) hconfig h (Nat.le_trans ?_ hn)
  exact Nat.add_le_add_left (config.toSettle_one_le r.failures) n

theorem reads_afterPage (hconfig : r.config = config) {next : Option String}
    (h : b.Through config.pageSize pages announced next)
    (hn : n + r.failures.length * config.attempts ≤ config.allowance pages announced) :
    Reads b config announced refused (r.afterPage next).1.failures n (r.afterPage next).1.phase
      (r.afterPage next).2 := by
  cases next with
  | none => exact reads_endPaging hconfig (.whole h) hn
  | some token =>
    subst hconfig
    exact .listing h.1 h.2 hn

theorem announced_afterPage (r : Republish) (next : Option String) :
    (r.afterPage next).2.deeds.flatMap (·.announced) = [] := by
  cases next with
  | none => exact announced_settle _ 1 r.failures
  | some token => rfl

/-- The page that the run waits for has been read, or refused. -/
theorem reads_listed (hconfig : r.config = config) {token : Option String}
    (hreach : (Store.rows b).Reaches config.pageSize pages token)
    (h : announced = b.readableTo (token.map Bytes.ofText))
    (hn : n + r.failures.length * config.attempts ≤ config.allowance pages announced)
    {page : Except StoreError Page} (hpage : ∀ p, page = .ok p → p = b.list token config.pageSize)
    (hrefused : ∀ e, page = .error e → refused) :
    Reads b config (announced ++ (r.listed page).2.deeds.flatMap (·.announced)) refused
      (r.listed page).1.failures (n + 1) (r.listed page).1.phase (r.listed page).2 := by
  have hpages : n + 1 + r.failures.length * config.attempts ≤
      config.allowance (pages + 1) announced := by
    unfold RepublishConfig.allowance at hn ⊢
    omega
  cases page with
  | error e =>
    rw [show (r.listed (.error e)).2.deeds.flatMap (·.announced) = [] from
      announced_settle _ 1 r.failures, List.append_nil]
    exact reads_endPaging hconfig (.refused (hrefused e rfl) hreach h) hpages
  | ok page =>
    have hthrough := RowStore.through_page config.pageSize_pos hreach h
    rw [← hpage page rfl] at hthrough
    by_cases hempty : page.records = []
    · rw [hempty, List.append_nil] at hthrough
      rw [Republish.listed_of_empty hempty, announced_afterPage, List.append_nil]
      exact reads_afterPage hconfig hthrough hpages
    · have hrecords : (r.listed (.ok page)).2.deeds.flatMap (·.announced) = page.records := by
        rw [Republish.listed_of_records hempty, RepublishWait.deeds, Republish.map_snd_numbered]
        exact List.append_nil _
      rw [hrecords, Republish.listed_of_records hempty]
      refine .announcing (by simpa using hempty) hthrough ?_
      rw [List.length_map, List.length_zipIdx]
      unfold RepublishConfig.allowance at hpages ⊢
      rw [List.length_append, Nat.add_mul]
      show n + 1 + r.failures.length * config.attempts + _ ≤ _
      omega

theorem length_left_lt {waiting : List (Nat × Record)} {number : Nat} {found : Nat × Record}
    (hfound : waiting.find? (·.1 == number) = some found) :
    (waiting.filter (·.1 != number)).length < waiting.length := by
  refine List.length_filter_lt_length_iff_exists.2 ⟨found, List.mem_of_find?_eq_some hfound, ?_⟩
  have hnumber := List.find?_some hfound
  simpa using hnumber

/-- An announcement takes one event, and another failure leaves its attempts. -/
theorem tally_cost (r : Republish) (record : Record) (how : PutEnd) (attempts : Nat) :
    (r.tally record how).failures.length * attempts + 1 ≤
      r.failures.length * attempts + (1 + attempts) := by
  cases how with
  | acknowledged => exact Nat.add_le_add_left (Nat.le_add_right 1 attempts) _
  | failed =>
    show (r.failures ++ [record]).length * attempts + 1 ≤ _
    rw [List.length_append, List.length_singleton, Nat.succ_mul]
    omega
  | lost => exact Nat.add_le_add_left (Nat.le_add_right 1 attempts) _

end Steps

/-! ## 4. Runs -/

/-- A run over rows, with its store, has come this far with its deeds, and has waited for so many
    events. What it writes to the ledger leaves the rows alone. -/
structure ReadsOn (b : RowStore) (config : RepublishConfig) (n : Nat)
    (deeds : List RepublishDeed) (store : Store) (next : Republish × RepublishWait) : Prop where
  settings : next.1.config = config
  rows : ∃ ledger, store = .rows ⟨b.records, ledger⟩
  reads : Reads b config (deeds.flatMap (·.announced)) (Refused deeds) next.1.failures n
    next.1.phase next.2

theorem config_settle (r : Republish) (attempts : Nat) (left : List Record) :
    (r.settle attempts left).1.config = r.config := by
  cases left with
  | nil => rfl
  | cons record rest =>
    by_cases hlt : attempts < r.config.maxAttempts
    · rw [Republish.settle_of_lt hlt]
    · rw [Republish.settle_of_not_lt hlt]

theorem config_afterPage (r : Republish) (next : Option String) :
    (r.afterPage next).1.config = r.config := by
  cases next with
  | none => exact config_settle _ 1 r.failures
  | some token => rfl

theorem config_listed (r : Republish) (page : Except StoreError Page) :
    (r.listed page).1.config = r.config := by
  cases page with
  | error e => exact config_settle _ 1 r.failures
  | ok page =>
    by_cases hempty : page.records = []
    · rw [Republish.listed_of_empty hempty, config_afterPage]
    · rw [Republish.listed_of_records hempty]

theorem Store.rows_of_writeFailed {records ledger : Table Bytes} {f : FailedRecord} {s : Store}
    (h : (Store.rows ⟨records, ledger⟩).writeFailed f = .ok s) :
    ∃ ledger', s = .rows ⟨records, ledger'⟩ := by
  simp only [writeFailed, RowStore.writeFailed] at h
  split at h
  · cases h
  · cases h
    exact ⟨_, rfl⟩

section

variable {b : RowStore} {config : RepublishConfig} {deeds : List RepublishDeed} {n pages : Nat}
  {store : Store} {r : Republish}

theorem readsOn_settle (hconfig : r.config = config)
    (hrows : ∃ ledger, store = .rows ⟨b.records, ledger⟩)
    (h : b.Paged config.pageSize (deeds.flatMap (·.announced)) (Refused deeds) pages)
    {attempts : Nat} {left : List Record} (hn : n + config.toSettle attempts left ≤
      config.allowance pages (deeds.flatMap (·.announced))) :
    ReadsOn b config n (deeds ++ (r.settle attempts left).2.deeds) store
      (r.settle attempts left) := by
  refine ⟨(config_settle r attempts left).trans hconfig, hrows, ?_⟩
  rw [announced_append deeds (announced_settle r attempts left)]
  exact reads_settle hconfig (h.imp fun hrefused => hrefused.append _) hn

theorem readsOn_afterPage (hconfig : r.config = config)
    (hrows : ∃ ledger, store = .rows ⟨b.records, ledger⟩) {next : Option String}
    (h : b.Through config.pageSize pages (deeds.flatMap (·.announced)) next)
    (hn : n + r.failures.length * config.attempts ≤
      config.allowance pages (deeds.flatMap (·.announced))) :
    ReadsOn b config n (deeds ++ (r.afterPage next).2.deeds) store (r.afterPage next) := by
  refine ⟨(config_afterPage r next).trans hconfig, hrows, ?_⟩
  rw [announced_append deeds (announced_afterPage r next)]
  exact reads_afterPage hconfig h hn

end

namespace RepublishMachine

variable {b : RowStore} {config : RepublishConfig} {m : RepublishMachine}
  {deeds : List RepublishDeed} {n : Nat}

/-- Whatever rule takes a run on, it goes on with the pages of its scan, and an event that it has
    waited for counts. -/
theorem reads_moves (h : ReadsOn b config n deeds m.store (m.run, m.wait)) {event : RepublishEvent}
    (hwrite : ∀ r, event ≠ .write r) {moved : RepublishMachine × List RepublishDeed}
    (hmoves : Moves m event moved) :
    ∃ n', ReadsOn b config n' (deeds ++ moved.2) moved.1.store (moved.1.run, moved.1.wait) ∧
      (m.Awaits event → n' = n + 1) := by
  obtain ⟨hconfig, hrows, hreads⟩ := h
  have hended : ∀ record how, (deeds ++ [RepublishDeed.ended record how]).flatMap (·.announced) =
      deeds.flatMap (·.announced) := fun _ _ => announced_append deeds rfl
  simp only at hconfig hreads
  generalize hphase : m.run.phase = phase at hreads
  generalize hwait : m.wait = wait at hreads
  cases hmoves with
  | idle event hnot =>
    refine ⟨n, ⟨hconfig, hrows, ?_⟩, fun hawaits => absurd hawaits hnot⟩
    rw [List.append_nil]
    simp only [hphase, hwait]
    exact hreads
  | write record => exact absurd rfl (hwrite record)
  | counted hcount =>
    obtain rfl := hcount.symm.trans hwait
    cases hreads with
    | counting hnone hno hn =>
      subst hconfig hn
      refine ⟨1, ⟨rfl, hrows, .listing .start ?_ ?_⟩, fun _ => rfl⟩
      · exact (announced_append deeds rfl).trans hnone
      · show 1 + m.run.failures.length * _ ≤ _
        rw [hno, List.length_nil, Nat.zero_mul]
        exact Nat.le_add_right 1 _
  | listed hlist hpage =>
    obtain rfl := hlist.symm.trans hwait
    cases hreads with
    | listing hreach h hn =>
      refine ⟨n + 1, ⟨?_, hrows, ?_⟩, fun _ => rfl⟩
      · exact (config_listed m.run _).trans hconfig
      · simp only [goOn, List.singleton_append, List.flatMap_append, List.flatMap_cons]
        refine reads_listed hconfig hreach h hn (fun p hp => ?_) fun e he => ?_
        · obtain ⟨ledger, hstore⟩ := hrows
          have hread := (StoreTurn.run_eq_ok (hpage.trans hp)).2
          rw [hstore] at hread
          exact (Except.ok.inj hread).symm
        · rw [he, List.append_cons]
          exact (refused_concat deeds e).append _
  | @noted turn failed hnote =>
    obtain rfl := hnote.symm.trans hwait
    cases hreads with
    | @noting _ rest _ h hn =>
      have hrows' : ∃ ledger, (turn.run (m.store.writeFailed failed)).toOption.getD m.store =
          .rows ⟨b.records, ledger⟩ := by
        cases hturn : turn.run (m.store.writeFailed failed) with
        | error e => exact hrows
        | ok store =>
          obtain ⟨ledger, hstore⟩ := hrows
          rw [hstore] at hturn
          exact Store.rows_of_writeFailed (StoreTurn.run_eq_ok hturn).2
      simp only [goOn, List.nil_append, Republish.noted_of_noting hphase]
      refine ⟨n + 1, readsOn_settle hconfig hrows' h ?_, fun _ => rfl⟩
      have := config.toSettle_one_le rest
      omega
  | @announced _ how waiting _ found hannouncing hfound hleft =>
    obtain rfl := hannouncing.symm.trans hphase
    cases hreads with
    | announcing hsome h hn =>
      refine ⟨n + 1, ⟨(m.run.config_tally found.2 how).trans hconfig, hrows, ?_⟩, fun _ => rfl⟩
      rw [← hended found.2 how] at h hn
      simp only [hwait]
      refine .announcing hleft h ?_
      have hcost := tally_cost m.run found.2 how config.attempts
      have hfewer := Nat.mul_le_mul_right (1 + config.attempts) (length_left_lt hfound)
      rw [Nat.succ_mul] at hfewer
      show n + 1 + (m.run.tally found.2 how).failures.length * _ + _ ≤ _
      omega
  | @pageEnds _ how _ _ found hannouncing hfound hlast =>
    obtain rfl := hannouncing.symm.trans hphase
    cases hreads with
    | announcing hsome h hn =>
      rw [← hended found.2 how] at h hn
      simp only [goOn, ← List.append_assoc]
      refine ⟨n + 1, readsOn_afterPage ((m.run.config_tally found.2 how).trans hconfig) hrows h ?_,
        fun _ => rfl⟩
      have hcost := tally_cost m.run found.2 how config.attempts
      have hfewer := Nat.mul_le_mul_right (1 + config.attempts) (length_left_lt hfound)
      rw [Nat.succ_mul] at hfewer
      show n + 1 + (m.run.tally found.2 how).failures.length * _ ≤ _
      omega
  | @retried acknowledged record hretry =>
    obtain rfl := hretry.symm.trans hwait
    cases hreads with
    | @retrying _ _ _ rest hmore h hn =>
      have h' := h.imp fun hrefused => hrefused.append
        [.ended record (if acknowledged then .acknowledged else .failed)]
      rw [← hended record (if acknowledged then .acknowledged else .failed)] at h' hn
      simp only [goOn, ← List.append_assoc]
      cases acknowledged with
      | true =>
        rw [Republish.retried_true hphase]
        refine ⟨n + 1, ?_, fun _ => rfl⟩
        refine readsOn_settle (by exact hconfig) hrows h' ?_
        have hrest := config.toSettle_one_le rest
        rw [RepublishConfig.toSettle] at hn
        omega
      | false =>
        rw [Republish.retried_false hphase]
        refine ⟨n + 1, readsOn_settle hconfig hrows h' ?_, fun _ => rfl⟩
        rw [← RepublishConfig.toSettle_succ hmore] at hn
        omega

/-- Every event of a history was waited for. -/
def AwaitedIn (m : RepublishMachine) : List RepublishEvent → Prop
  | [] => True
  | event :: past => m.AwaitedIn past ∧ (m.after past).Awaits event

/-- What one event does to a run over rows that nobody writes beside. -/
theorem reads_step (h : ReadsOn b config n deeds m.store (m.run, m.wait)) {event : RepublishEvent}
    (hwrite : ∀ r, event ≠ .write r) :
    ∃ n', ReadsOn b config n' (deeds ++ (m.step event).2) (m.step event).1.store
        ((m.step event).1.run, (m.step event).1.wait) ∧ (m.Awaits event → n' = n + 1) :=
  reads_moves h hwrite (m.moves_step event)

/-- Where a run over rows has come to that nobody has written beside. -/
theorem reads_after (b : RowStore) (config : RepublishConfig) {history : List RepublishEvent}
    (hwrites : ∀ r, .write r ∉ history) :
    ∃ n, ReadsOn b config n ((start (.rows b) config).deedsIn history)
        ((start (.rows b) config).after history).store
        (((start (.rows b) config).after history).run,
          ((start (.rows b) config).after history).wait) ∧
      ((start (.rows b) config).AwaitedIn history → n = history.length) := by
  induction history with
  | nil => exact ⟨0, ⟨rfl, ⟨b.failed, rfl⟩, .counting rfl rfl rfl⟩, fun _ => rfl⟩
  | cons event past ih =>
    obtain ⟨n, hpast, hcount⟩ := ih fun r hr => hwrites r (List.mem_cons_of_mem _ hr)
    have hwrite : ∀ r, event ≠ .write r := fun r hr => hwrites r (hr ▸ List.mem_cons_self)
    obtain ⟨n', hnext, hevent⟩ := reads_step hpast hwrite
    refine ⟨n', hnext, fun ⟨hawaited, hawaits⟩ => ?_⟩
    rw [hevent hawaits, hcount hawaited, List.length_cons]

end RepublishMachine

/-! ## 5. What follows for a run -/

section

variable {b : RowStore} {config : RepublishConfig} {announced failures : List Record}
  {refused : Prop} {n pages : Nat} {phase : RepublishPhase} {wait : RepublishWait}

theorem RowStore.readableTo_prefix (b : RowStore) (bound : Option Bytes) :
    b.readableTo bound <+: b.readable :=
  ⟨_, b.readableTo_append_after bound⟩

theorem RowStore.Through.leads {pageSize : Nat} {next : Option String}
    (h : b.Through pageSize pages announced next) : announced <+: b.readable := by
  cases next with
  | none => exact h.2 ▸ List.prefix_refl _
  | some token => exact h.2 ▸ b.readableTo_prefix _

theorem RowStore.Paged.leads {pageSize : Nat} (h : b.Paged pageSize announced refused pages) :
    announced <+: b.readable := by
  cases h with
  | whole h => exact h.leads
  | refused hrefused hreach h => exact h ▸ b.readableTo_prefix _

/-- What a run announces is what can be read, from the first row on. -/
theorem Reads.leads (h : Reads b config announced refused failures n phase wait) :
    announced <+: b.readable := by
  cases h with
  | counting hnone hno hn => exact hnone ▸ List.nil_prefix
  | listing hreach h hn => exact h ▸ b.readableTo_prefix _
  | announcing hsome h hn => exact h.leads
  | retrying hmore h hn => exact h.leads
  | noting h hn => exact h.leads
  | ended h hn => exact h.leads

/-- A run that has ended has been through its scan, unless it was refused a page. -/
theorem Reads.whole {r : Republish}
    (h : Reads b config announced refused failures n r.phase wait) (hended : r.hasEnded = true)
    (hnot : ¬refused) :
    announced = b.readable ∧ ∃ k, (Store.rows b).EndsIn config.pageSize none k := by
  unfold Republish.hasEnded at hended
  generalize r.phase = phase at h hended
  cases h with
  | ended h hn =>
    cases h with
    | whole h => exact ⟨h.2, _, h.1⟩
    | refused hrefused hreach h => exact absurd hrefused hnot
  | counting => cases hended
  | listing => cases hended
  | announcing => cases hended
  | retrying => cases hended
  | noting => cases hended

theorem Store.EndsIn.pos {s : Store} {pageSize : Nat} {token : Option String} {k : Nat}
    (h : s.EndsIn pageSize token k) : 0 < k := by
  cases h with
  | last => exact Nat.one_pos
  | more => exact Nat.succ_pos _

theorem RowStore.Through.pages_le {pageSize k : Nat} {next : Option String}
    (h : b.Through pageSize pages announced next)
    (hends : (Store.rows b).EndsIn pageSize none k) : pages ≤ k := by
  cases next with
  | none => exact Nat.le_of_eq (h.1.unique hends)
  | some token =>
    obtain ⟨m, rfl, -⟩ := h.1.left hends
    exact Nat.le_add_left pages m

theorem RowStore.Paged.pages_le {pageSize k : Nat}
    (h : b.Paged pageSize announced refused pages)
    (hends : (Store.rows b).EndsIn pageSize none k) : pages ≤ k := by
  cases h with
  | whole h => exact h.pages_le hends
  | refused hrefused hreach h =>
    obtain ⟨m, rfl, hleft⟩ := hreach.left hends
    have := hleft.pos
    omega

theorem RepublishConfig.allowance_mono {k : Nat} (config : RepublishConfig) (hpages : pages ≤ k)
    (h : announced <+: b.readable) :
    config.allowance pages announced ≤ config.allowance k b.readable :=
  Nat.add_le_add (Nat.add_le_add_left hpages 1) (Nat.mul_le_mul_right _ h.length_le)

/-- Where the scan ends, a run can wait for so many events and no more. -/
theorem Reads.bounded (h : Reads b config announced refused failures n phase wait) {k : Nat}
    (hends : (Store.rows b).EndsIn config.pageSize none k) :
    n ≤ config.allowance k b.readable := by
  have hleads := h.leads
  cases h with
  | counting hnone hno hn => exact hn ▸ Nat.zero_le _
  | @listing pages _ hreach h hn =>
    obtain ⟨m, rfl, -⟩ := hreach.left hends
    have := config.allowance_mono (Nat.le_add_left pages m) hleads
    omega
  | announcing hsome h hn =>
    have := config.allowance_mono (h.pages_le hends) hleads
    omega
  | retrying hmore h hn =>
    have := config.allowance_mono (h.pages_le hends) hleads
    omega
  | noting h hn =>
    have := config.allowance_mono (h.pages_le hends) hleads
    omega
  | ended h hn =>
    have := config.allowance_mono (h.pages_le hends) hleads
    omega

/-- A run that has not ended waits for something. -/
theorem Reads.awaits {m : RepublishMachine}
    (h : Reads b config announced refused failures n m.run.phase m.wait)
    (hgoing : m.run.hasEnded = false) : ∃ event, m.Awaits event := by
  unfold Republish.hasEnded at hgoing
  generalize hphase : m.run.phase = phase at h hgoing
  generalize hwait : m.wait = wait at h
  cases h with
  | counting => exact ⟨.store .proceeds, .inl hwait⟩
  | listing => exact ⟨.store .proceeds, .inr (.inl ⟨_, _, hwait⟩)⟩
  | @announcing _ waiting _ next hsome h hn =>
    obtain ⟨first, rest, rfl⟩ := List.exists_cons_of_ne_nil hsome
    refine ⟨.announced first.1 .acknowledged, ?_⟩
    have hfound : m.run.waiting? first.1 = some first.2 :=
      Republish.waiting?_eq_some.2 ⟨_, next, first, hphase, by simp, rfl⟩
    show m.run.waiting? first.1 ≠ none
    rw [hfound]
    exact Option.some_ne_none first.2
  | retrying => exact ⟨.retried true, _, hwait⟩
  | noting => exact ⟨.store .proceeds, .inr (.inr ⟨_, hwait⟩)⟩
  | ended => cases hgoing

end

/-! ## 6. Scans and runs over damaged rows -/

open RepublishMachine in
/-- What becomes of the rows that can be read, whatever else is in the tree. The pages of a scan
    hold them in the order of their keys, none twice and none left out, and all of them when the
    scan ends. It ends exactly when no token comes twice, for example when the pages are larger
    than every setback. A run that nobody writes beside announces them in the same way, and unless
    the store refuses it a page, it can end only if its scan does; then it does end, after a
    number of events that the rows and the settings bound. -/
theorem damaged_rows_scanned (b : RowStore) {pageSize : Nat} (hpos : 0 < pageSize)
    (config : RepublishConfig) {history : List RepublishEvent}
    (hwrites : ∀ r, .write r ∉ history) :
    (∀ limit, ((Store.rows b).pages pageSize none limit).flatMap (·.records) <+: b.readable) ∧
      (∀ n, (Store.rows b).EndsIn pageSize none n →
        ((Store.rows b).pages pageSize none n).length = n ∧
          ((Store.rows b).pages pageSize none n).flatMap (·.records) = b.readable) ∧
      ((∃ n, (Store.rows b).EndsIn pageSize none n) ↔
        (((Store.rows b).pages pageSize none (b.records.size + 1)).map (·.next)).Nodup) ∧
      (∀ d < pageSize, (∀ row ∈ b.records.rows, b.setback row.1 ≤ d) →
        ∃ n ≤ b.records.size / (pageSize - d) + 1, (Store.rows b).EndsIn pageSize none n) ∧
      ((start (.rows b) config).deedsIn history).flatMap (·.announced) <+: b.readable ∧
      (((start (.rows b) config).after history).run.hasEnded = true →
        ((start (.rows b) config).deedsIn history).flatMap (·.refusal) = [] →
          ((start (.rows b) config).deedsIn history).flatMap (·.announced) = b.readable ∧
            ∃ n, (Store.rows b).EndsIn config.pageSize none n) ∧
      (∀ n, (Store.rows b).EndsIn config.pageSize none n →
        (start (.rows b) config).AwaitedIn history →
          history.length ≤ 1 + n + b.readable.length * (1 + config.attempts)) ∧
      (((start (.rows b) config).after history).run.hasEnded = false →
        ∃ event, ((start (.rows b) config).after history).Awaits event) := by
  obtain ⟨n, ⟨-, -, hreads⟩, hcount⟩ := reads_after b config hwrites
  refine ⟨?pages, ?whole, ?ends, ?setback, hreads.leads, ?ended, ?bounded, hreads.awaits⟩
  case pages =>
    intro limit
    obtain ⟨left, hall, -⟩ := Store.pages_readable (b := b) hpos none limit
    exact ⟨left, hall.symm⟩
  case whole =>
    intro k hends
    obtain ⟨left, hall, hleft⟩ := Store.pages_readable (b := b) hpos none k
    obtain ⟨rfl, hlength⟩ := hleft k (Nat.le_refl k) hends
    rw [List.append_nil] at hall
    exact ⟨hlength, hall.symm⟩
  case ends =>
    rw [← Store.endsIn_iff_nodup hpos]
    refine ⟨fun ⟨k, hends⟩ => ?_, fun ⟨k, _, hends⟩ => ⟨k, hends⟩⟩
    exact (Store.endsIn_iff_nodup hpos).2 (hends.nodup _)
  case setback =>
    intro d hd hrows
    exact Store.endsIn_of_setback hrows hd none
  case ended => exact fun hended hrefusal => hreads.whole hended fun hrefused => hrefused hrefusal
  case bounded => exact fun k hends hawaited => hcount hawaited ▸ hreads.bounded hends

/-- A key that is no text, and a record after it. -/
def damagedRows : RowStore :=
  ⟨.ofRows [([0x61, 0xFF], []),
    (Bytes.ofText (neutralRecord [] 3).id, (neutralRecord [] 3).toWire)], .empty⟩

theorem damagedRows_rows : damagedRows.records.rows = [([0x61, 0xFF], []),
    (Bytes.ofText (neutralRecord [] 3).id, (neutralRecord [] 3).toWire)] := by
  decide +kernel

theorem read?_damaged : RowStore.read? ([0x61, 0xFF], []) = none := by
  have hid : (readRecordId (Utf8.lossy [0x61, 0xFF])).toOption = none := by decide +kernel
  unfold RowStore.read? RowStore.readRow
  cases hread : readRecordId (Utf8.lossy [0x61, 0xFF]) with
  | error e => rfl
  | ok owner =>
    rw [hread] at hid
    cases hid

/-- The page of the damaged key leads back to where it began. -/
theorem list_damagedRows {token : Option String} (h : token = none ∨ token = some "a\uFFFD") :
    (Store.rows damagedRows).list token 1 = ⟨[], some "a\uFFFD"⟩ := by
  have hafter : damagedRows.records.after (token.map Bytes.ofText) = damagedRows.records.rows := by
    rcases h with rfl | rfl
    · rfl
    · decide +kernel
  have htext : Utf8.lossy [0x61, 0xFF] = "a\uFFFD" := by decide +kernel
  show damagedRows.list token 1 = _
  rw [RowStore.list, hafter, damagedRows_rows, ← htext]
  have hread := read?_damaged
  unfold RowStore.read? at hread
  simp [hread]

open RepublishMachine in
/-- With pages of one row the damaged key holds up a scan for ever: the record after it never comes,
    and a run does not end. With pages of two rows it does no harm. -/
theorem damaged_rows_scanned_of_stall :
    0 < 1 ∧ (∀ r, .write r ∉ ([] : List RepublishEvent)) ∧
      damagedRows.readable = [neutralRecord [] 3] ∧
      (¬∃ n, (Store.rows damagedRows).EndsIn 1 none n) ∧
      (∀ limit, ((Store.rows damagedRows).pages 1 none limit).flatMap (·.records) = []) ∧
      (∀ history, (∀ r, .write r ∉ history) →
        ((start (.rows damagedRows) ⟨1, 3, 0⟩).deedsIn history).flatMap (·.refusal) = [] →
          ((start (.rows damagedRows) ⟨1, 3, 0⟩).after history).run.hasEnded = false) ∧
      (∃ n ≤ 3, (Store.rows damagedRows).EndsIn 2 none n ∧
        ((Store.rows damagedRows).pages 2 none n).flatMap (·.records) = [neutralRecord [] 3]) := by
  have hnothing : ∀ r, .write r ∉ ([] : List RepublishEvent) := fun r h => nomatch h
  have hreadable : damagedRows.readable = [neutralRecord [] 3] := by
    have hvalid : (neutralRecord [] 3).validate = .ok () :=
      validate_neutralRecord (by decide) (by decide)
    have hrecord := RowStore.readRow_toWire hvalid
    have hread : RowStore.read? (Bytes.ofText (neutralRecord [] 3).id,
        (neutralRecord [] 3).toWire) = some (neutralRecord [] 3) := by
      rw [RowStore.read?, hrecord]
      rfl
    rw [RowStore.readable, damagedRows_rows, List.filterMap_cons_none read?_damaged,
      List.filterMap_cons_some hread, List.filterMap_nil]
  have hstall : ∀ limit token, (token = none ∨ token = some "a\uFFFD") →
      (Store.rows damagedRows).pages 1 token limit =
        List.replicate limit ⟨[], some "a\uFFFD"⟩ := by
    intro limit
    induction limit with
    | zero => exact fun token _ => rfl
    | succ limit ih =>
      intro token htoken
      rw [Store.pages_of_more (congrArg Page.next (list_damagedRows htoken)),
        list_damagedRows htoken, ih _ (.inr rfl)]
      rfl
  have hsize : damagedRows.records.size = 2 := by decide +kernel
  have hnever : ¬∃ n, (Store.rows damagedRows).EndsIn 1 none n := by
    rw [(damaged_rows_scanned damagedRows Nat.one_pos ⟨1, 3, 0⟩ hnothing).2.2.1, hsize,
      hstall _ _ (.inl rfl)]
    decide
  refine ⟨Nat.one_pos, hnothing, hreadable, hnever, ?_, ?_, ?_⟩
  · intro limit
    rw [hstall _ _ (.inl rfl), List.flatMap_replicate]
    simp
  · intro history hwrites hrefusal
    obtain ⟨-, -, -, -, -, hended, -⟩ :=
      damaged_rows_scanned damagedRows Nat.one_pos ⟨1, 3, 0⟩ hwrites
    exact Bool.eq_false_iff.2 fun h => hnever (hended h hrefusal).2
  · obtain ⟨-, hwhole, -, hsetback, -⟩ :=
      damaged_rows_scanned damagedRows Nat.two_pos ⟨1, 3, 0⟩ hnothing
    have hrows : ∀ row ∈ damagedRows.records.rows, damagedRows.setback row.1 ≤ 1 := by
      rw [damagedRows_rows, List.forall_mem_cons, List.forall_mem_singleton,
        RowStore.setback_of_text]
      exact ⟨by decide +kernel, Nat.zero_le 1⟩
    obtain ⟨n, hn, hends⟩ := hsetback 1 Nat.one_lt_two hrows
    rw [hsize] at hn
    exact ⟨n, hn, hends, (hwhole n hends).2.trans hreadable⟩

end SignedRecords
