import SignedRecords.Proofs.NeutralKey
import SignedRecords.Proofs.RepublishSteps
import SignedRecords.Proofs.RepublishStories

/-!
# What a republish adds up to

While the pages last, the stories of a run grow in the order in which the first announcements
happen to end. Afterwards those that are still open are taken up one after the other, each until an
announcement is acknowledged or all attempts are used up. At every moment the report counts the
stories that have come to their ends, and in the end there are no others.

Main statements: `sums_step` and `run_adds_up`.
-/

open scoped List

namespace SignedRecords

/-! ## 1. Stages -/

/-- How many announcements of a record are allowed. -/
def RepublishConfig.attempts (config : RepublishConfig) : Nat := max 1 config.maxAttempts

/-- The stories that failures are the beginnings of, when `attempts` have been made at the first
    one and one at each of the others. -/
def openedBy (attempts : Nat) : List Record → List Story
  | [] => []
  | record :: rest => .failing record attempts :: rest.map (.failing · 1)

theorem unrepeated_failing (records : List Record) :
    Unrepeated (records.map (Story.failing · 1)) := by
  intro s hs
  obtain ⟨record, -, rfl⟩ := List.mem_map.1 hs
  rfl

theorem openedBy_one (failures : List Record) :
    openedBy 1 failures = failures.map (.failing · 1) := by
  cases failures <;> rfl

/-- What a phase of a run means for the stories that have ended, for those that are open, and for
    the announcements that have not ended; `failures` are those that the run has noted. -/
inductive Stage (maxAttempts : Nat) (failures : List Record) (closed : List Story) :
    RepublishPhase → RepublishWait → (opened : List Story) → (waiting underway : List Record) →
      Prop where
  | counting (hnone : Unrepeated closed) :
      Stage maxAttempts failures closed .counting .count (openedBy 1 failures) [] []
  | listing {token : Option String} {pageSize : Nat} (hnone : Unrepeated closed) :
      Stage maxAttempts failures closed (.listing token) (.list token pageSize)
        (openedBy 1 failures) [] []
  | announcing {numbered all : List (Nat × Record)} {next : Option String}
      (hnone : Unrepeated closed) (hnumbers : (numbered.map (·.1)).Nodup) :
      Stage maxAttempts failures closed (.announcing numbered next) (.puts all)
        (openedBy 1 failures) (numbered.map (·.2)) []
  | retrying {record : Record} {attempts : Nat} {rest : List Record} (hpos : 1 ≤ attempts)
      (hlt : attempts < maxAttempts) :
      Stage maxAttempts failures closed (.retrying record attempts rest) (.retry record)
        (openedBy attempts (record :: rest)) [] [record]
  | noting {rest : List Record} {failed : FailedRecord} :
      Stage maxAttempts failures closed (.noting rest) (.note failed) (openedBy 1 rest) [] []
  | ended : Stage maxAttempts failures closed .ended .nothing [] [] []

/-- The deeds of a run so far follow some stories, and the accounts of those that have ended are
    right. -/
def Sums (config : RepublishConfig) (deeds : List RepublishDeed)
    (next : Republish × RepublishWait) : Prop :=
  next.1.config = config ∧ ∃ closed opened waiting underway,
    Stage config.maxAttempts next.1.failures closed next.1.phase next.2 opened waiting underway ∧
      Follows deeds (closed ++ opened) waiting underway ∧
      Accounts config.attempts deeds next.1.report closed

/-! ## 2. What the steps do to the stories -/

section Steps

variable {config : RepublishConfig} {deeds : List RepublishDeed} {r : Republish}
  {closed : List Story} {failures : List Record}

/-- The first of the open stories is taken up, or is given up. -/
theorem sums_settle (hsize : config.attempts < UInt32.size) (hconfig : r.config = config)
    {attempts : Nat} (hpos : 1 ≤ attempts) (hle : attempts ≤ config.attempts)
    (hfollows : Follows deeds (closed ++ openedBy attempts failures) [] [])
    (haccounts : Accounts config.attempts deeds r.report closed) :
    Sums config (deeds ++ (r.settle attempts failures).2.deeds) (r.settle attempts failures) := by
  subst hconfig
  cases failures with
  | nil =>
    refine ⟨rfl, closed, [], [], [], .ended, ?_, ?_⟩
    · exact hfollows.append rfl rfl rfl rfl
    · exact haccounts.append rfl rfl
  | cons record rest =>
    by_cases hlt : attempts < r.config.maxAttempts
    · rw [Republish.settle_of_lt hlt]
      refine ⟨rfl, closed, _, [], [record], .retrying hpos hlt, ?_, ?_⟩
      · exact hfollows.repeats record
      · exact haccounts.append rfl rfl
    · rw [Republish.settle_of_not_lt hlt]
      -- all attempts are used up, so what has been counted is the number that was allowed
      have hall : r.config.attempts = attempts := by
        unfold RepublishConfig.attempts at hle ⊢
        omega
      rw [hall] at haccounts hsize
      have hgivenUp := haccounts.giveUp (Story.told_failing record hpos)
        (Story.succeeded_failing record hpos) hsize
      refine ⟨rfl, closed ++ [.failing record attempts], openedBy 1 rest, [], [], .noting, ?_, ?_⟩
      · rw [List.append_assoc, openedBy_one]
        exact hfollows.append rfl rfl rfl rfl
      · rw [hall]
        exact hgivenUp

/-- After the last page the failures are taken up. -/
theorem sums_endPaging (hsize : config.attempts < UInt32.size) (hconfig : r.config = config)
    (hfollows : Follows deeds (closed ++ openedBy 1 r.failures) [] [])
    (haccounts : Accounts config.attempts deeds r.report closed) :
    Sums config (deeds ++ r.endPaging.2.deeds) r.endPaging :=
  sums_settle (r := { r with failures := [] }) hsize hconfig (Nat.le_refl 1)
    (Nat.le_max_left 1 _) hfollows haccounts

theorem sums_afterPage (hsize : config.attempts < UInt32.size) (hconfig : r.config = config)
    (hnone : Unrepeated closed) (hfollows : Follows deeds (closed ++ openedBy 1 r.failures) [] [])
    (haccounts : Accounts config.attempts deeds r.report closed) (next : Option String) :
    Sums config (deeds ++ (r.afterPage next).2.deeds) (r.afterPage next) := by
  cases next with
  | none => exact sums_endPaging hsize hconfig hfollows haccounts
  | some token =>
    refine ⟨hconfig, closed, _, [], [], .listing hnone, ?_, ?_⟩
    · exact hfollows.append rfl rfl rfl rfl
    · exact haccounts.append rfl rfl

/-- The store has answered, or not. -/
theorem sums_listed (hsize : config.attempts < UInt32.size) (hconfig : r.config = config)
    (hnone : Unrepeated closed) (hfollows : Follows deeds (closed ++ openedBy 1 r.failures) [] [])
    (haccounts : Accounts config.attempts deeds r.report closed)
    (page : Except StoreError Page) :
    Sums config (deeds ++ (.listed page :: (r.listed page).2.deeds)) (r.listed page) := by
  rw [List.append_cons]
  cases page with
  | error e =>
    exact sums_endPaging hsize hconfig (hfollows.append rfl rfl rfl rfl) (haccounts.append rfl rfl)
  | ok page =>
    by_cases hempty : page.records = []
    · have hpage : [RepublishDeed.listed (.ok page)].flatMap (·.pageRecords) = [] := by
        simpa [RepublishDeed.pageRecords] using hempty
      rw [Republish.listed_of_empty hempty]
      exact sums_afterPage hsize hconfig hnone (hfollows.append hpage rfl rfl rfl)
        (haccounts.append hpage rfl) page.next
    · rw [Republish.listed_of_records hempty, List.append_assoc]
      refine ⟨hconfig, closed, _, _, [], .announcing hnone (Republish.nodup_numbered _), ?_, ?_⟩
      · rw [RepublishWait.deeds, Republish.map_snd_numbered]
        exact hfollows.page page
      · rw [RepublishWait.deeds, Republish.map_snd_numbered]
        exact haccounts.page page _

/-- A first announcement has ended and is noted. -/
theorem sums_tally (hnone : Unrepeated closed) {waiting left : List Record} {record : Record}
    (hfollows : Follows deeds (closed ++ openedBy 1 r.failures) waiting [])
    (haccounts : Accounts config.attempts deeds r.report closed)
    (hleft : waiting ~ record :: left) {how : PutEnd} (hhow : how ≠ .lost) :
    ∃ closed', Unrepeated closed' ∧
      Follows (deeds ++ [.ended record how]) (closed' ++ openedBy 1 (r.tally record how).failures)
        left [] ∧
      Accounts config.attempts (deeds ++ [.ended record how]) (r.tally record how).report
        closed' := by
  have hall : Unrepeated (closed ++ openedBy 1 r.failures) := by
    rw [openedBy_one]
    exact List.forall_mem_append.2 ⟨hnone, unrepeated_failing _⟩
  have haccounts' : Accounts config.attempts (deeds ++ [.ended record how]) r.report closed :=
    haccounts.append rfl rfl
  cases how with
  | lost => contradiction
  | acknowledged =>
    refine ⟨closed ++ [⟨record, true, []⟩], ?_, ?_, ?_⟩
    · exact List.forall_mem_append.2 ⟨hnone, List.forall_mem_singleton.2 rfl⟩
    · refine hfollows.first hall hleft .acknowledged ?_
      rw [List.append_assoc]
      exact List.perm_middle
    · exact haccounts'.succeed (Story.told_of_first record (Nat.le_max_left 1 _)) rfl
  | failed =>
    refine ⟨closed, hnone, ?_, haccounts'⟩
    refine hfollows.first hall hleft .failed ?_
    rw [openedBy_one, openedBy_one, Republish.tally, List.map_append, ← List.append_assoc]
    exact List.perm_append_singleton _ _

/-- Another attempt has ended: its story has, too, or goes on. -/
theorem sums_retried (hsize : config.attempts < UInt32.size) (hconfig : r.config = config)
    {record : Record} {attempts : Nat} {rest : List Record}
    (hphase : r.phase = .retrying record attempts rest) (hpos : 1 ≤ attempts)
    (hlt : attempts < config.maxAttempts)
    (hfollows : Follows deeds (closed ++ openedBy attempts (record :: rest)) [] [record])
    (haccounts : Accounts config.attempts deeds r.report closed) (acknowledged : Bool) :
    Sums config
      (deeds ++ (.ended record (if acknowledged then .acknowledged else .failed) ::
        (r.retried acknowledged).2.deeds)) (r.retried acknowledged) := by
  have hlt' : attempts < config.attempts := Nat.lt_of_lt_of_le hlt (Nat.le_max_right 1 _)
  have hfollows' := hfollows.again (unrepeated_failing rest) acknowledged
  have haccounts' : Accounts config.attempts
      (deeds ++ [.ended record (if acknowledged then .acknowledged else .failed)]) r.report closed :=
    haccounts.append rfl rfl
  rw [List.append_cons]
  cases acknowledged with
  | true =>
    have hclosed := haccounts'.succeed (Story.told_continued record hpos hlt')
      (Story.succeeded_continued _ true)
    rw [Republish.retried_true hphase]
    refine sums_settle (r := { r with
      report := { r.report with succeeded := r.report.succeeded + 1 } }) hsize hconfig
      (Nat.le_refl 1) (Nat.le_max_left 1 _) ?_ hclosed
    rwa [openedBy_one, ← List.append_cons]
  | false =>
    rw [Republish.retried_false hphase]
    refine sums_settle hsize hconfig (Nat.le_add_left 1 _) hlt' ?_ haccounts'
    rwa [Story.failing_continued record hpos] at hfollows'

end Steps

/-! ## 3. Runs -/

namespace RepublishMachine

variable {config : RepublishConfig} {m : RepublishMachine} {deeds : List RepublishDeed}

/-- Whatever rule takes a run on, it keeps the accounts: unless an announcement is lost. -/
theorem sums_moves (hsize : config.attempts < UInt32.size)
    (h : Sums config deeds (m.run, m.wait)) {event : RepublishEvent}
    (hlost : ∀ number, event ≠ .announced number .lost)
    {moved : RepublishMachine × List RepublishDeed} (hmoves : Moves m event moved) :
    Sums config (deeds ++ moved.2) (moved.1.run, moved.1.wait) := by
  have hunchanged : Sums config (deeds ++ []) (m.run, m.wait) := by rwa [List.append_nil]
  obtain ⟨hconfig, closed, opened, waiting, underway, hstage, hfollows, haccounts⟩ := h
  simp only at hconfig hstage haccounts
  generalize hphase : m.run.phase = phase at hstage
  generalize hwait : m.wait = wait at hstage
  cases hmoves with
  | idle => exact hunchanged
  | write record => exact hunchanged
  | counted hcount =>
    obtain rfl := hcount.symm.trans hwait
    cases hstage with
    | counting hnone =>
      refine ⟨hconfig, closed, _, [], [], .listing hnone, ?_, ?_⟩
      · exact hfollows.append rfl rfl rfl rfl
      · exact (haccounts.counted _).append rfl rfl
  | listed hlist hpage =>
    obtain rfl := hlist.symm.trans hwait
    cases hstage with
    | listing hnone => exact sums_listed hsize hconfig hnone hfollows haccounts _
  | noted hnote =>
    obtain rfl := hnote.symm.trans hwait
    cases hstage with
    | noting =>
      simp only [goOn, Republish.noted_of_noting hphase]
      exact sums_settle hsize hconfig (Nat.le_refl 1) (Nat.le_max_left 1 _) hfollows haccounts
  | announced hannouncing hfound =>
    obtain rfl := hannouncing.symm.trans hphase
    cases hstage with
    | announcing hnone hnumbers =>
      obtain ⟨closed', hnone', hfollows', haccounts'⟩ := sums_tally hnone hfollows haccounts
        ((perm_of_find? hnumbers hfound).map (·.2)) fun hhow =>
          hlost _ (congrArg (RepublishEvent.announced _) hhow)
      refine ⟨?_, closed', _, _, [], hwait ▸ .announcing hnone' ?_, hfollows', haccounts'⟩
      · exact (Republish.config_tally _ _ _).trans hconfig
      · exact hnumbers.sublist (List.filter_sublist.map _)
  | pageEnds hannouncing hfound hlast =>
    obtain rfl := hannouncing.symm.trans hphase
    cases hstage with
    | announcing hnone hnumbers =>
      obtain ⟨closed', hnone', hfollows', haccounts'⟩ := sums_tally hnone hfollows haccounts
        ((perm_of_find? hnumbers hfound).map (·.2)) fun hhow =>
          hlost _ (congrArg (RepublishEvent.announced _) hhow)
      rw [hlast] at hfollows'
      simp only [goOn, ← List.append_assoc]
      exact sums_afterPage hsize ((Republish.config_tally _ _ _).trans hconfig) hnone' hfollows'
        haccounts' _
  | retried hretry =>
    obtain rfl := hretry.symm.trans hwait
    cases hstage with
    | retrying hpos hlt => exact sums_retried hsize hconfig hphase hpos hlt hfollows haccounts _

/-- Every event goes into the accounts. -/
theorem sums_step (hsize : config.attempts < UInt32.size)
    (h : Sums config deeds (m.run, m.wait)) {event : RepublishEvent}
    (hlost : ∀ number, event ≠ .announced number .lost) :
    Sums config (deeds ++ (m.step event).2) ((m.step event).1.run, (m.step event).1.wait) :=
  sums_moves hsize h hlost (m.moves_step event)

/-- No run loses count. -/
theorem sums_after (hsize : config.attempts < UInt32.size) (store : Store)
    {history : List RepublishEvent} (hlost : ∀ number, .announced number .lost ∉ history) :
    Sums config ((start store config).deedsIn history)
      (((start store config).after history).run, ((start store config).after history).wait) := by
  induction history with
  | nil =>
    refine ⟨rfl, [], [], [], [], .counting (fun _ h => nomatch h), .start, ?_⟩
    exact ⟨fun _ h => (nomatch h), rfl, rfl, rfl, rfl⟩
  | cons event past ih =>
    have hpast := ih fun number h => hlost number (List.mem_cons_of_mem _ h)
    exact sums_step hsize hpast fun number h => hlost number (h ▸ List.mem_cons_self)

/-- A republish adds up when it has ended, whatever the store and the surroundings did: every
    record on a page has a story, the announcements that began and ended are those of the stories,
    and the report and the ledger follow from how the stories ended. Only an announcement of which
    nothing is heard any more would be missing. -/
theorem run_adds_up (store : Store) (config : RepublishConfig)
    (hsize : config.maxAttempts < UInt32.size) (history : List RepublishEvent)
    (hlost : ∀ number, .announced number .lost ∉ history)
    (hended : ((start store config).after history).run.hasEnded = true) :
    ∃ stories,
      Follows ((start store config).deedsIn history) stories [] [] ∧
        Accounts (max 1 config.maxAttempts) ((start store config).deedsIn history)
          ((start store config).after history).run.report stories ∧
        ((start store config).after history).run.report.seen =
          ((start store config).after history).run.report.succeeded +
            ((start store config).after history).run.report.failed := by
  have hattempts : config.attempts < UInt32.size := Nat.max_lt.2 ⟨by decide, hsize⟩
  obtain ⟨-, closed, opened, waiting, underway, hstage, hfollows, haccounts⟩ :=
    sums_after hattempts store hlost
  generalize (start store config).after history = m at hended hstage haccounts
  obtain ⟨store', ⟨config', report, failures, phase⟩, wait⟩ := m
  simp only at hstage haccounts
  cases hstage with
  | ended =>
    rw [List.append_nil] at hfollows
    refine ⟨closed, hfollows, haccounts, ?_⟩
    have hlength : closed.length = report.seen := by
      rw [haccounts.seen, ← hfollows.seen.length_eq]
      simp
    rw [← hlength, haccounts.succeeded, haccounts.failed]
    simpa using List.length_eq_countP_add_countP (·.succeeded) (l := closed)
  | counting hnone => cases hended
  | listing hnone => cases hended
  | announcing hnone hnumbers => cases hended
  | retrying hpos hlt => cases hended
  | noting => cases hended

/-- Two pages of one record; the one is announced once more and acknowledged then, the other one
    fails three times, and so does the entry into the ledger. -/
def failingHistory : List RepublishEvent :=
  [.store .proceeds, .store .proceeds, .announced 0 .failed, .store .proceeds,
    .announced 0 .failed, .store .proceeds, .retried true, .retried false, .retried false,
    .store (.fails "the disk is full")].reverse

theorem run_adds_up_of_failing :
    ∃ (store : Store) (config : RepublishConfig),
      store = (Store.memory .empty).writeAll [.ofOctet 1, .ofOctet 2] ∧ config = ⟨1, 3, 0⟩ ∧
      config.maxAttempts < UInt32.size ∧ (∀ number, .announced number .lost ∉ failingHistory) ∧
      ((start store config).after failingHistory).run.hasEnded = true ∧
      ∃ stories,
        Follows ((start store config).deedsIn failingHistory) stories [] [] ∧
          Accounts (max 1 config.maxAttempts) ((start store config).deedsIn failingHistory)
            ((start store config).after failingHistory).run.report stories ∧
          ((start store config).after failingHistory).run.report.seen =
            ((start store config).after failingHistory).run.report.succeeded +
              ((start store config).after failingHistory).run.report.failed := by
  have hsize : (3 : Nat) < UInt32.size := by decide
  have hlost : ∀ number, .announced number .lost ∉ failingHistory := by
    intro number
    simp [failingHistory]
  have hended : ((start ((Store.memory .empty).writeAll [.ofOctet 1, .ofOctet 2])
      ⟨1, 3, 0⟩).after failingHistory).run.hasEnded = true := by
    decide +kernel
  exact ⟨_, ⟨1, 3, 0⟩, rfl, rfl, hsize, hlost, hended,
    run_adds_up _ ⟨1, 3, 0⟩ hsize failingHistory hlost hended⟩

end RepublishMachine

end SignedRecords
