import SignedRecords.Proofs.RepublishRuns
import SignedRecords.Proofs.Scans
import SignedRecords.Proofs.ServicePieces

/-!
# A republish goes through its store

The pages that a run announces are those of a scan beside writers. Whoever writes meanwhile, no id
is announced on two pages, and unless the store refuses a page, none is left out that was there
when the run began. This holds for every size of the pages; a size of zero counts as one.

Main statements: `sweeps_step` and `pages_lose_nothing`.
-/

namespace SignedRecords

open Table (Passed Complete Onward)

/-! ## 1. Phases -/

/-- Why the store has refused a page. -/
def RepublishDeed.refusal : RepublishDeed → List StoreError
  | .listed (.error e) => [e]
  | _ => []

/-- The store has refused a page. -/
def Refused (deeds : List RepublishDeed) : Prop := deeds.flatMap (·.refusal) ≠ []

/-- What a phase of a run means for the records that it has announced from pages: while there are
    pages to come it is on its way through the ids, afterwards it has been at all of them. -/
inductive Sweep (start t : Table Record) (announced : List Record) (refused : Prop) :
    RepublishPhase → RepublishWait → Prop where
  | counting (h : Passed start t none announced) :
      Sweep start t announced refused .counting .count
  | listing {token : Option String} {pageSize : Nat} (hpos : 0 < pageSize)
      (h : Passed start t (token.map Bytes.ofText) announced) :
      Sweep start t announced refused (.listing token) (.list token pageSize)
  | announcing {waiting all : List (Nat × Record)} {next : Option String}
      (h : Onward start t announced next) :
      Sweep start t announced refused (.announcing waiting next) (.puts all)
  | retrying {record : Record} {attempts : Nat} {rest : List Record}
      (hasc : IdsAscend announced) (h : refused ∨ Complete start announced) :
      Sweep start t announced refused (.retrying record attempts rest) (.retry record)
  | noting {rest : List Record} {failed : FailedRecord}
      (hasc : IdsAscend announced) (h : refused ∨ Complete start announced) :
      Sweep start t announced refused (.noting rest) (.note failed)
  | ended (hasc : IdsAscend announced) (h : refused ∨ Complete start announced) :
      Sweep start t announced refused .ended .nothing

/-- A run that began with a table has come this far with its deeds, in a store that others write
    to. -/
def Sweeps (start : Table Record) (deeds : List RepublishDeed) (store : Store)
    (next : Republish × RepublishWait) : Prop :=
  ∃ t, store.Keeps t ∧
    Sweep start t (deeds.flatMap (·.announced)) (Refused deeds) next.1.phase next.2

theorem Refused.append {deeds : List RepublishDeed} (h : Refused deeds)
    (more : List RepublishDeed) : Refused (deeds ++ more) := by
  unfold Refused at h ⊢
  rw [List.flatMap_append]
  exact List.append_ne_nil_of_left_ne_nil h _

theorem refused_concat (deeds : List RepublishDeed) (e : StoreError) :
    Refused (deeds ++ [.listed (.error e)]) := by
  unfold Refused
  rw [List.flatMap_append]
  exact List.append_ne_nil_of_right_ne_nil _ (List.cons_ne_nil e [])

theorem announced_append (deeds : List RepublishDeed) {more : List RepublishDeed}
    (h : more.flatMap (·.announced) = []) :
    (deeds ++ more).flatMap (·.announced) = deeds.flatMap (·.announced) := by
  rw [List.flatMap_append, h, List.append_nil]

/-! ## 2. Steps -/

section Steps

variable {start t : Table Record} {deeds : List RepublishDeed} {store : Store}

theorem Sweep.ascending {announced : List Record} {refused : Prop} {phase : RepublishPhase}
    {wait : RepublishWait} (h : Sweep start t announced refused phase wait) :
    IdsAscend announced := by
  cases h with
  | counting h => exact h.ascending
  | listing hpos h => exact h.ascending
  | announcing h => exact h.ascending
  | retrying hasc h => exact hasc
  | noting hasc h => exact hasc
  | ended hasc h => exact hasc

/-- A run that has ended has been at everything, if no page was refused. -/
theorem Sweep.complete {announced : List Record} {refused : Prop} {r : Republish}
    {wait : RepublishWait} (h : Sweep start t announced refused r.phase wait)
    (hended : r.hasEnded = true) (hnot : ¬refused) : Complete start announced := by
  unfold Republish.hasEnded at hended
  generalize r.phase = phase at h hended
  cases h with
  | ended hasc h => exact h.resolve_left hnot
  | counting h => cases hended
  | listing hpos h => cases hended
  | announcing h => cases hended
  | retrying hasc h => cases hended
  | noting hasc h => cases hended

/-- Somebody else writes to the store. -/
theorem Sweep.attempt {announced : List Record} {refused : Prop} {phase : RepublishPhase}
    {wait : RepublishWait} (h : Sweep start t announced refused phase wait) (r : Record) :
    Sweep start (t.attempt r) announced refused phase wait := by
  cases h with
  | counting h => exact .counting (h.attempt r)
  | listing hpos h => exact .listing hpos (h.attempt r)
  | announcing h => exact .announcing (h.attempt r)
  | retrying hasc h => exact .retrying hasc h
  | noting hasc h => exact .noting hasc h
  | ended hasc h => exact .ended hasc h

/-- After the pages nothing is announced for the first time. -/
theorem announced_settle (r : Republish) (attempts : Nat) (failures : List Record) :
    (r.settle attempts failures).2.deeds.flatMap (·.announced) = [] := by
  cases failures with
  | nil => rfl
  | cons record rest =>
    by_cases hlt : attempts < r.config.maxAttempts
    · rw [Republish.settle_of_lt hlt]
      rfl
    · rw [Republish.settle_of_not_lt hlt]
      rfl

theorem sweep_settle {announced : List Record} {refused : Prop} (hasc : IdsAscend announced)
    (h : refused ∨ Complete start announced) (r : Republish) (attempts : Nat)
    (failures : List Record) :
    Sweep start t announced refused (r.settle attempts failures).1.phase
      (r.settle attempts failures).2 := by
  cases failures with
  | nil => exact .ended hasc h
  | cons record rest =>
    by_cases hlt : attempts < r.config.maxAttempts
    · rw [Republish.settle_of_lt hlt]
      exact .retrying hasc h
    · rw [Republish.settle_of_not_lt hlt]
      exact .noting hasc h

theorem sweeps_settle (hkeeps : store.Keeps t) (hasc : IdsAscend (deeds.flatMap (·.announced)))
    (h : Refused deeds ∨ Complete start (deeds.flatMap (·.announced))) (r : Republish)
    (attempts : Nat) (failures : List Record) :
    Sweeps start (deeds ++ (r.settle attempts failures).2.deeds) store
      (r.settle attempts failures) := by
  refine ⟨t, hkeeps, ?_⟩
  rw [announced_append deeds (announced_settle r attempts failures)]
  exact sweep_settle hasc (h.imp_left fun hrefused => hrefused.append _) r attempts failures

theorem sweeps_afterPage (hkeeps : store.Keeps t) {next : Option String}
    (h : Onward start t (deeds.flatMap (·.announced)) next) (r : Republish) :
    Sweeps start (deeds ++ (r.afterPage next).2.deeds) store (r.afterPage next) := by
  cases next with
  | none => exact sweeps_settle hkeeps h.ascending (.inr h) _ 1 _
  | some token =>
    refine ⟨t, hkeeps, .listing (Nat.lt_of_lt_of_le Nat.zero_lt_one (Nat.le_max_right _ 1)) ?_⟩
    rw [List.flatMap_append]
    exact (List.append_nil _).symm ▸ h

/-- The page that the run waits for has been read, or refused. -/
theorem sweeps_listed (hkeeps : store.Keeps t)
    (hasc : IdsAscend (deeds.flatMap (·.announced))) {page : Except StoreError Page}
    (hpage : ∀ p, page = .ok p → Onward start t (deeds.flatMap (·.announced) ++ p.records) p.next)
    (r : Republish) :
    Sweeps start (deeds ++ (.listed page :: (r.listed page).2.deeds)) store (r.listed page) := by
  rw [List.append_cons]
  have hheard : (deeds ++ [RepublishDeed.listed page]).flatMap (·.announced) =
      deeds.flatMap (·.announced) := announced_append deeds rfl
  cases page with
  | error e =>
    refine sweeps_settle hkeeps ?_ (.inl (refused_concat deeds e)) _ 1 _
    rwa [hheard]
  | ok page =>
    have honward := hpage page rfl
    by_cases hempty : page.records = []
    · rw [Republish.listed_of_empty hempty]
      refine sweeps_afterPage hkeeps ?_ r
      rwa [hheard, ← List.append_nil (deeds.flatMap _), ← hempty]
    · rw [Republish.listed_of_records hempty]
      refine ⟨t, hkeeps, .announcing ?_⟩
      rw [List.flatMap_append, hheard, RepublishWait.deeds, Republish.map_snd_numbered]
      simpa [RepublishDeed.announced] using honward

end Steps

/-! ## 3. Runs -/

namespace RepublishMachine

variable {start : Table Record} {m : RepublishMachine} {deeds : List RepublishDeed}

/-- Whatever rule takes a run on, the pages that are to come go on where the last one ended. -/
theorem sweeps_moves (h : Sweeps start deeds m.store (m.run, m.wait)) {event : RepublishEvent}
    (hwrite : ∀ r, event = .write r → m.store.Takes r)
    {moved : RepublishMachine × List RepublishDeed} (hmoves : Moves m event moved) :
    Sweeps start (deeds ++ moved.2) moved.1.store (moved.1.run, moved.1.wait) := by
  have hunchanged : Sweeps start (deeds ++ []) m.store (m.run, m.wait) := by
    rwa [List.append_nil]
  obtain ⟨t, hkeeps, hsweep⟩ := h
  have hended : ∀ record how, (deeds ++ [RepublishDeed.ended record how]).flatMap (·.announced) =
      deeds.flatMap (·.announced) := fun _ _ => announced_append deeds rfl
  simp only at hsweep
  generalize hphase : m.run.phase = phase at hsweep
  generalize hwait : m.wait = wait at hsweep
  cases hmoves with
  | idle => exact hunchanged
  | write record =>
    obtain ⟨t, hkeeps, hsweep⟩ := hunchanged
    exact ⟨t.attempt record, hkeeps.attempt (hwrite record rfl), hsweep.attempt record⟩
  | counted hcount =>
    obtain rfl := hcount.symm.trans hwait
    cases hsweep with
    | counting h =>
      refine ⟨t, hkeeps, .listing (Nat.lt_of_lt_of_le Nat.zero_lt_one (Nat.le_max_right _ 1)) ?_⟩
      exact (List.append_nil deeds).symm ▸ h
  | listed hlist hpage =>
    obtain rfl := hlist.symm.trans hwait
    cases hsweep with
    | listing hpos h =>
      refine sweeps_listed hkeeps h.ascending (fun p hp => ?_) m.run
      obtain ⟨-, hread⟩ := StoreTurn.run_eq_ok (hpage.trans hp)
      obtain rfl := Except.ok.inj hread
      rw [hkeeps.list]
      exact h.page hkeeps.filed hpos
  | @noted turn failed hnote =>
    obtain rfl := hnote.symm.trans hwait
    cases hsweep with
    | noting hasc h =>
      have hkeeps' : ((turn.run (m.store.writeFailed failed)).toOption.getD m.store).Keeps t := by
        cases hturn : turn.run (m.store.writeFailed failed) with
        | error e => exact hkeeps
        | ok store => exact hkeeps.of_writeFailed (StoreTurn.run_eq_ok hturn).2
      simp only [goOn, Republish.noted_of_noting hphase]
      exact sweeps_settle hkeeps' hasc h m.run 1 _
  | @announced _ how _ _ found hannouncing hfound =>
    obtain rfl := hannouncing.symm.trans hphase
    cases hsweep with
    | announcing h =>
      rw [← hended found.2 how] at h
      exact ⟨t, hkeeps, hwait ▸ .announcing h⟩
  | @pageEnds _ how _ _ found hannouncing hfound hlast =>
    obtain rfl := hannouncing.symm.trans hphase
    cases hsweep with
    | announcing h =>
      rw [← hended found.2 how] at h
      simp only [goOn, ← List.append_assoc]
      exact sweeps_afterPage hkeeps h _
  | @retried acknowledged record hretry =>
    obtain rfl := hretry.symm.trans hwait
    cases hsweep with
    | retrying hasc h =>
      have h' := h.imp_left fun hrefused => hrefused.append
        [.ended record (if acknowledged then .acknowledged else .failed)]
      rw [← hended record (if acknowledged then .acknowledged else .failed)] at hasc h'
      simp only [goOn, ← List.append_assoc]
      cases acknowledged with
      | true =>
        rw [Republish.retried_true hphase]
        exact sweeps_settle hkeeps hasc h' _ 1 _
      | false =>
        rw [Republish.retried_false hphase]
        exact sweeps_settle hkeeps hasc h' m.run _ _

/-- What one event does to the pages that are to come. -/
theorem sweeps_step (h : Sweeps start deeds m.store (m.run, m.wait)) {event : RepublishEvent}
    (hwrite : ∀ r, event = .write r → m.store.Takes r) :
    Sweeps start (deeds ++ (m.step event).2) (m.step event).1.store
      ((m.step event).1.run, (m.step event).1.wait) :=
  sweeps_moves h hwrite (m.moves_step event)

/-- A store does not change its kind. -/
theorem isRows_moves {event : RepublishEvent} {moved : RepublishMachine × List RepublishDeed}
    (hmoves : Moves m event moved) : moved.1.store.isRows = m.store.isRows := by
  cases hmoves with
  | write record => exact Store.isRows_attempt m.store record
  | @noted turn failed hnote =>
    simp only [goOn]
    cases hturn : turn.run (m.store.writeFailed failed) with
    | error e => rfl
    | ok store => exact Store.isRows_of_writeFailed (StoreTurn.run_eq_ok hturn).2
  | _ => rfl

theorem isRows_after (m : RepublishMachine) (history : List RepublishEvent) :
    (m.after history).store.isRows = m.store.isRows := by
  induction history with
  | nil => rfl
  | cons event past ih => exact (isRows_moves (moves_step _ event)).trans ih

/-- What a run has announced from pages, when it has begun with a store that keeps a table. -/
theorem sweeps_after {store : Store} {t : Table Record} (hkeeps : store.Keeps t)
    (config : RepublishConfig) {history : List RepublishEvent}
    (hwrites : ∀ r, .write r ∈ history → store.Takes r) :
    Sweeps t ((RepublishMachine.start store config).deedsIn history)
      ((RepublishMachine.start store config).after history).store
      (((RepublishMachine.start store config).after history).run,
        ((RepublishMachine.start store config).after history).wait) := by
  induction history with
  | nil => exact ⟨t, hkeeps, .counting (Table.passed_start t)⟩
  | cons event past ih =>
    have hpast := ih fun r hr => hwrites r (List.mem_cons_of_mem _ hr)
    refine sweeps_step hpast fun r hr => ?_
    have htakes := hwrites r (hr ▸ List.mem_cons_self)
    unfold Store.Takes at htakes ⊢
    rwa [isRows_after]

end RepublishMachine

/-! ## 4. Paging -/

open RepublishMachine in
/-- Paging loses and repeats nothing while others write. For a sound store: a scan is thorough
    whatever is written between its pages; if nothing is, it has one page more than there are full
    ones; and a run announces increasing ids from its pages, in the end all that the store had when
    the run began, unless the store has refused a page. -/
theorem pages_lose_nothing {store : Store} (hsound : store.Sound) {pageSize : Nat}
    (hpos : 0 < pageSize) {later : List (List Record)}
    (hlater : ∀ rs ∈ later, ∀ r ∈ rs, store.Takes r) (config : RepublishConfig)
    {history : List RepublishEvent} (hwrites : ∀ r, .write r ∈ history → store.Takes r) :
    store.Thorough (store.scan pageSize none later) ∧
      (∀ limit, store.count / pageSize ≤ limit →
        (store.scan pageSize none (List.replicate limit [])).length =
            store.count / pageSize + 1 ∧
          Store.ScanEnded (store.scan pageSize none (List.replicate limit []))) ∧
      IdsAscend (((start store config).deedsIn history).flatMap (·.announced)) ∧
      (((start store config).after history).run.hasEnded = true →
        ((start store config).deedsIn history).flatMap (·.refusal) = [] →
          ∀ id r, store.read id = .ok (some r) →
            ∃ a ∈ ((start store config).deedsIn history).flatMap (·.announced), a.id = id) := by
  obtain ⟨t, ht⟩ := hsound.keeps
  obtain ⟨u, -, hsweep⟩ := sweeps_after ht config hwrites
  refine ⟨hsound.thorough_scan hpos hlater, ?_, hsweep.ascending, ?_⟩
  · intro limit hlimit
    rw [ht.count] at hlimit ⊢
    exact ht.length_scan hpos none hlimit
  · intro hended hrefusal id r hr
    have hcomplete : t.Complete (((start store config).deedsIn history).flatMap (·.announced)) :=
      hsweep.complete hended fun hrefused => hrefused hrefusal
    rw [ht.read] at hr
    obtain ⟨a, ha, hid⟩ := hcomplete.covered _ ⟨r, Except.ok.inj hr⟩
    exact ⟨a, ha, Bytes.ofText_inj.1 hid⟩

/-- A store of two records. -/
def pairStore : Store := (Store.memory .empty).writeAll [.ofOctet 2, .ofOctet 4]

/-- A run over that store, one record a page: after the first page somebody writes two more records,
    one of them before the token and one after it; the announcement of the latter fails once. -/
def pairHistory : List RepublishEvent :=
  [.store .proceeds, .store .proceeds, .write (.ofOctet 3), .write (.ofOctet 7),
    .announced 0 .acknowledged, .store .proceeds, .announced 0 .failed, .store .proceeds,
    .announced 0 .acknowledged, .store .proceeds, .retried true].reverse

open RepublishMachine in
/-- The scan and the run come to their ends, and a page size of zero counts as one. -/
theorem pages_lose_nothing_beside_writer :
    pairStore.Sound ∧ 0 < 1 ∧
      (∀ rs ∈ [[Record.ofOctet 3, .ofOctet 7], [], []], ∀ r ∈ rs, pairStore.Takes r) ∧
      (∀ r, .write r ∈ pairHistory → pairStore.Takes r) ∧
      pairStore.Thorough (pairStore.scan 1 none [[.ofOctet 3, .ofOctet 7], [], []]) ∧
      Store.ScanEnded (pairStore.scan 1 none [[.ofOctet 3, .ofOctet 7], [], []]) ∧
      (pairStore.scan 1 none (List.replicate 2 [])).length = 2 / 1 + 1 ∧
      ((start pairStore ⟨0, 2, 0⟩).after pairHistory).run.hasEnded = true ∧
      IdsAscend (((start pairStore ⟨0, 2, 0⟩).deedsIn pairHistory).flatMap (·.announced)) ∧
      ∀ id r, pairStore.read id = .ok (some r) →
        ∃ a ∈ ((start pairStore ⟨0, 2, 0⟩).deedsIn pairHistory).flatMap (·.announced),
          a.id = id := by
  have hempty : ∀ r, (Store.memory .empty).Takes r := fun r h => nomatch h
  have htakes : ∀ r, pairStore.Takes r := fun r => Store.takes_writeAll.2 (hempty r)
  have hsound : pairStore.Sound := Store.sound_memory_empty.writeAll fun r _ => hempty r
  have hlater : ∀ rs ∈ [[Record.ofOctet 3, .ofOctet 7], [], []], ∀ r ∈ rs, pairStore.Takes r :=
    fun rs _ r _ => htakes r
  have hwrites : ∀ r, .write r ∈ pairHistory → pairStore.Takes r := fun r _ => htakes r
  obtain ⟨hthorough, hcount, hasc, hall⟩ :=
    pages_lose_nothing hsound Nat.one_pos hlater ⟨0, 2, 0⟩ hwrites
  have hended : ((start pairStore ⟨0, 2, 0⟩).after pairHistory).run.hasEnded = true := by
    decide +kernel
  have hrefusal :
      ((start pairStore ⟨0, 2, 0⟩).deedsIn pairHistory).flatMap (·.refusal) = [] := by
    decide +kernel
  have hscan : Store.ScanEnded (pairStore.scan 1 none [[.ofOctet 3, .ofOctet 7], [], []]) := by
    unfold Store.ScanEnded
    decide +kernel
  have hsize : pairStore.count = 2 := by decide +kernel
  rw [hsize] at hcount
  exact ⟨hsound, Nat.one_pos, hlater, hwrites, hthorough, hscan, (hcount 2 (Nat.le_refl 2)).1,
    hended, hasc, hall hended hrefusal⟩

end SignedRecords
