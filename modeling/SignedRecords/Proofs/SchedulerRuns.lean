import SignedRecords.Proofs.SchedulerMoves

/-!
# Runs of a scheduler

What holds of a scheduler after any events in any order: runs do not overlap, the scheduler shows
what it does, and a stop is final.
-/

namespace SignedRecords

namespace Scheduler

/-- Events with their times, the latest first. -/
abbrev Past : Type := List (Stamp × SchedulerEvent)

/-- Whether a stop has begun. -/
def StopCalled (past : Past) : Prop := ∃ p ∈ past, p.2.isStop = true

variable {past : Past} {s : Scheduler} {deeds : List SchedulerAction}

theorem after_cons {p : Stamp × SchedulerEvent} (h : after (p :: past) = some (s, deeds)) :
    ∃ r before more, after past = some (r, before) ∧ r.step p.1 p.2 = some (s, more) ∧
      deeds = before ++ more := by
  obtain ⟨⟨r, before⟩, hpast, h⟩ := Option.bind_eq_some_iff.1 h
  obtain ⟨⟨t, more⟩, hstep, h⟩ := Option.bind_eq_some_iff.1 h
  cases h
  exact ⟨r, before, more, hpast, hstep, rfl⟩

theorem orderly_after (h : after past = some (s, deeds)) : s.Orderly := by
  induction past generalizing s deeds with
  | nil =>
    cases h
    exact orderly_fresh
  | cons p past ih =>
    obtain ⟨r, before, more, hpast, hstep, rfl⟩ := after_cons h
    exact (ih hpast).move (moves_of_step hstep)

theorem recorded_after (h : after past = some (s, deeds)) : s.Recorded deeds := by
  induction past generalizing s deeds with
  | nil =>
    cases h
    exact recorded_fresh
  | cons p past ih =>
    obtain ⟨r, before, more, hpast, hstep, rfl⟩ := after_cons h
    exact (ih hpast).move (moves_of_step hstep)

theorem shutdown_after (h : after past = some (s, deeds)) :
    s.shutdown = true ↔ StopCalled past := by
  induction past generalizing s deeds with
  | nil =>
    cases h
    simp [fresh, StopCalled]
  | cons p past ih =>
    obtain ⟨r, before, more, hpast, hstep, rfl⟩ := after_cons h
    rw [(moves_of_step hstep).shutdown, Bool.or_eq_true, ih hpast]
    simp [StopCalled, or_comm]

/-- A stop that has returned is final: since then no run is in progress and none has started. -/
structure Final (s : Scheduler) (deeds : List SchedulerAction) : Prop where
  rests : ∀ stop, .returns stop ∈ deeds → s.shutdown = true ∧ s.runs = []
  quiet : ∀ stop before later, deeds = before ++ .returns stop :: later →
    ∀ run, .starts run ∉ later

theorem final_after (h : after past = some (s, deeds)) : s.Final deeds := by
  induction past generalizing s deeds with
  | nil =>
    cases h
    refine ⟨fun _ hmem => ?_, fun _ before _ hnil => ?_⟩
    · cases hmem
    · simp at hnil
  | cons p past ih =>
    obtain ⟨r, before, more, hpast, hstep, rfl⟩ := after_cons h
    have horder := orderly_after hpast
    have hmove := moves_of_step hstep
    have hfinal := ih hpast
    refine ⟨fun stop hmem => ?_, fun stop earlier later hsplit run hrun => ?_⟩
    · rcases List.mem_append.1 hmem with hmem | hmem
      · obtain ⟨hdown, hruns⟩ := hfinal.rests stop hmem
        exact ⟨by rw [hmove.shutdown, hdown, Bool.true_or], hmove.stays_idle horder hdown hruns⟩
      · exact hmove.returns_of_mem horder hmem
    · -- the stop has returned in the last step, or before it
      have hlast : more = .returns stop :: later → False := fun hmore =>
        hmove.starts_or_returns (hmore ▸ List.mem_cons_self) (hmore ▸ List.mem_cons_of_mem _ hrun)
      rcases List.append_eq_append_iff.1 hsplit with ⟨between, -, hmore⟩ | ⟨between, rfl, hlater⟩
      · have hreturns : .returns stop ∈ more := by simp [hmore]
        have hstarts : .starts run ∈ more := by simp [hmore, hrun]
        exact hmove.starts_or_returns hreturns hstarts
      · cases between with
        | nil => exact hlast hlater.symm
        | cons first between =>
          obtain ⟨rfl, rfl⟩ := List.cons.inj hlater
          rcases List.mem_append.1 hrun with hrun | hrun
          · exact hfinal.quiet stop earlier between rfl run hrun
          · have hdown := (hfinal.rests stop (by simp)).1
            cases hdown.symm.trans (hmove.starts_of_mem horder hrun).1

/-! ## Schedulers are safe -/

/-- What a scheduler does, after some events that led to some deeds. -/
structure Safe (past : Past) (s : Scheduler) (deeds : List SchedulerAction) : Prop where
  /-- At most one run is in progress. -/
  exclusive : ∀ run run', InProgress deeds run → InProgress deeds run' → run = run'
  running : s.state = .running ↔ (∃ run, InProgress deeds run) ∧ ¬ StopCalled past
  idle : s.state = .idle ↔ (¬ ∃ run, InProgress deeds run) ∧ ¬ StopCalled past
  stopped : s.state = .stopped ↔ StopCalled past
  /-- At most one job is ever installed. -/
  single : (installedIn deeds).length ≤ 1
  /-- Before a stop, work on demand is refused while a run is in progress. -/
  busy : ¬ StopCalled past → (∃ run, InProgress deeds run) →
    ∀ now, s.step now .runOnce = some (s, [.refused .busy])
  /-- Before a stop, work on demand is run when no run is in progress. -/
  runs : ¬ StopCalled past → (¬ ∃ run, InProgress deeds run) →
    ∀ now, ∃ run t, s.step now .runOnce = some (t, [.starts run]) ∧ t.runs = [run]
  /-- After a stop nothing is taken on. A wrong expression is still refused as such. -/
  refuses : StopCalled past → ∀ now,
    s.step now .runOnce = some (s, [.refused .stopped]) ∧
    (∀ period, s.step now (.interval period) = some (s, [.refused .stopped])) ∧
    ∀ expression, s.step now (.schedule expression) =
      some (s, [.refused (if (Cron.parse? expression).isSome then .stopped
        else .invalidCron expression)])
  /-- When a stop has returned no run is in progress, -/
  returned : ∀ stop, .returns stop ∈ deeds → ¬ ∃ run, InProgress deeds run
  /-- and none starts any more. -/
  final : ∀ stop before later, deeds = before ++ .returns stop :: later →
    ∀ run, .starts run ∉ later

theorem Recorded.runs_eq_nil (h : s.Recorded deeds) :
    s.runs = [] ↔ ¬ ∃ run, InProgress deeds run := by
  simp only [List.eq_nil_iff_forall_not_mem, h.progress, not_exists]

theorem Orderly.runs_inj (h : s.Orderly) {run run' : Nat} (hrun : run ∈ s.runs)
    (hrun' : run' ∈ s.runs) : run = run' := by
  have hruns := h.runs_eq
  rw [RunLock.held] at hruns
  split at hruns
  · rw [hruns, List.mem_singleton] at hrun hrun'
    rw [hrun, hrun']
  · rw [hruns] at hrun
    cases hrun

theorem schedule_stopped (hmark : s.mark = .stopped) (expression : String) :
    s.schedule expression =
      (s, [.refused (if (Cron.parse? expression).isSome then .stopped
        else .invalidCron expression)]) := by
  unfold Scheduler.schedule Trigger.ofCron
  cases Cron.parse? expression with
  | none => rfl
  | some schedule => exact if_pos hmark

/-- Before a stop the scheduler shows whether a run is in progress, and after it that it is
    stopped. -/
theorem Orderly.state_cases (h : s.Orderly) :
    (s.state = .running ↔ s.runs ≠ [] ∧ ¬ s.shutdown = true) ∧
      (s.state = .idle ↔ s.runs = [] ∧ ¬ s.shutdown = true) ∧
      (s.state = .stopped ↔ s.shutdown = true) := by
  rw [state, h.mark_eq, shown]
  by_cases hdown : s.shutdown = true <;> by_cases hruns : s.runs = [] <;> simp [hdown, hruns]

theorem step_runOnce_busy (h : s.Orderly) (hup : s.shutdown = false) (hruns : s.runs ≠ [])
    (now : Stamp) : s.step now .runOnce = some (s, [.refused .busy]) := by
  have hheld : s.lock.holder ≠ none := fun hfree => hruns (h.runs_of_free hfree)
  have hmark := h.mark_ne_stopped.2 hup
  simp [step, runOnce, hmark, Option.isSome_iff_ne_none.2 hheld]

theorem step_runOnce_free (h : s.Orderly) (hup : s.shutdown = false) (hruns : s.runs = [])
    (now : Stamp) :
    ∃ run t, s.step now .runOnce = some (t, [.starts run]) ∧ t.runs = [run] := by
  have hfree := h.free hup hruns
  have hmark := h.mark_ne_stopped.2 hup
  exact ⟨s.started, s.enter, by simp [step, runOnce, hmark, hfree], by simp [enter, hruns]⟩

/-- Any events in any order. -/
theorem safe_after (h : after past = some (s, deeds)) : Safe past s deeds := by
  have horder := orderly_after h
  have hrecorded := recorded_after h
  have hfinal := final_after h
  have hstop : s.shutdown = true ↔ StopCalled past := shutdown_after h
  have hidle : s.runs = [] ↔ ¬ ∃ run, InProgress deeds run := hrecorded.runs_eq_nil
  have hbusy : s.runs ≠ [] ↔ ∃ run, InProgress deeds run := by rw [Ne, hidle, Classical.not_not]
  have hup : s.shutdown = false ↔ ¬ StopCalled past := by rw [← hstop, Bool.not_eq_true]
  obtain ⟨hrunning, hwaiting, hstopped⟩ := horder.state_cases
  rw [hbusy, hstop] at hrunning
  rw [hidle, hstop] at hwaiting
  rw [hstop] at hstopped
  exact
    { exclusive := fun run run' hrun hrun' =>
        horder.runs_inj ((hrecorded.progress run).2 hrun) ((hrecorded.progress run').2 hrun')
      running := hrunning
      idle := hwaiting
      stopped := hstopped
      single := hrecorded.installed_eq ▸ horder.installed_le
      busy := fun hno hrun => step_runOnce_busy horder (hup.2 hno) (hbusy.2 hrun)
      runs := fun hno hrun => step_runOnce_free horder (hup.2 hno) (hidle.2 hrun)
      refuses := fun hcalled now => by
        have hmark : s.mark = .stopped := hstopped.2 hcalled
        exact ⟨by simp [step, runOnce, hmark], fun _ => by simp [step, install, hmark],
          fun expression => congrArg some (schedule_stopped hmark expression)⟩
      returned := fun stop hmem => hidle.1 (hfinal.rests stop hmem).2
      final := hfinal.quiet }

/-- Events at one time, given in their order. -/
def sampleOf (events : List SchedulerEvent) : Past := (events.map (⟨0, 0⟩, ·)).reverse

/-- A run of a job goes on while its trigger fires again, work on demand is refused, and two stops
    begin. The first stop waits for the trigger, both wait for the run, and that breaks down. -/
def sampleStops : Past :=
  sampleOf [.interval 1000, .begins 0, .fires 0 false, .fires 0 false, .runOnce, .stop 1, .runOnce,
    .schedule "never", .notices 0, .goesOn 1, .stop 2, .ends 0 .breaksDown, .locks 1, .locks 2]

/-- What comes of these events. -/
def sampleDeeds : List SchedulerAction :=
  [.installs 0, .starts 0, .refused .busy, .refused .stopped, .refused (.invalidCron "never"),
    .ended 0 .breaksDown, .returns 1, .returns 2]

theorem safe_after_of_stops :
    ∃ s, after sampleStops = some (s, sampleDeeds) ∧ Safe sampleStops s sampleDeeds := by
  have hdeeds : (after sampleStops).map (·.2) = some sampleDeeds := by rfl
  obtain ⟨⟨s, deeds⟩, h, rfl⟩ := Option.map_eq_some_iff.1 hdeeds
  exact ⟨s, h, safe_after h⟩

end Scheduler

end SignedRecords
