import SignedRecords.Scheduler.Machine

/-!
# Schedulers in order

Every step of a scheduler is one of a few moves. Whatever moves are made, the lock is held by the
run in progress, if there is one, and the mark follows the lock until the first stop. So runs do
not overlap, and nobody but runs takes the lock before a stop.
-/

namespace SignedRecords

/-- Whether a stop begins. -/
def SchedulerEvent.isStop : SchedulerEvent → Bool
  | .stop _ => true
  | _ => false

/-- The run that has a lock. -/
def RunLock.held (l : RunLock) : List Nat :=
  match l.holder with
  | some (.run run) => [run]
  | _ => []

theorem RunLock.held_release (l : RunLock) : l.release.held = [] := by
  unfold release
  split <;> rfl

namespace Scheduler

/-! ## Moves -/

/-- The moves of a scheduler: what can come of an event, and what it leads to. -/
inductive Moves (s : Scheduler) : SchedulerEvent → Scheduler → List SchedulerAction → Prop
  | refuses {event e} (hevent : event.isStop = false) : Moves s event s [.refused e]
  | installs {event tasks} (hevent : event.isStop = false) (hup : s.mark ≠ .stopped)
      (hslot : s.slot = none) :
      Moves s event
        { s with slot := some s.installed, tasks, installed := s.installed + 1 }
        [.installs s.installed]
  | starts {event tasks} (hevent : event.isStop = false)
      (hup : s.mark ≠ .stopped ∨ s.shutdown = false) (hfree : s.lock.holder = none) :
      Moves s event { s.enter with tasks } [.starts s.started]
  | breaks {event tasks} (hevent : event.isStop = false) (hup : s.shutdown = false)
      (hfree : s.lock.holder = none) :
      Moves s event { s.enter.leave s.started with tasks }
        [.starts s.started, .ended s.started .breaksDown]
  | lingers {event tasks} (hevent : event.isStop = false) : Moves s event { s with tasks } []
  | ends {run how} (hrun : run ∈ s.runs) :
      Moves s (.ends run how) (s.leave run) [.ended run how]
  | signals {number stops} : Moves s (.stop number) { s.signal with stops } []
  /-- A stop waits for the lock, after its signal or later. -/
  | queues {event stop stops t} (ht : event.isStop = true ∧ t = s.signal ∨
        event.isStop = false ∧ s.stops ≠ [] ∧ t = { s with stops }) :
      Moves s event { t with lock := { t.lock with waiting := t.lock.waiting ++ [stop] } } []
  /-- A stop finds the lock free, after its signal or later. -/
  | returns {event stop stops t} (ht : event.isStop = true ∧ t = s.signal ∨
        event.isStop = false ∧ s.stops ≠ [] ∧ t = { s with stops })
      (hfree : s.lock.holder = none) : Moves s event t [.returns stop]
  | passes {stop} (hholder : s.lock.holder = some (.stop stop)) :
      Moves s (.locks stop) { s with lock := s.lock.release } [.returns stop]
  | abandons {stop} : Moves s (.abandons stop) (s.abandon stop) []

variable {s t : Scheduler} {now : Stamp} {event : SchedulerEvent} {more : List SchedulerAction}

theorem moves_install (hevent : event.isStop = false) {trigger : Trigger}
    (h : s.install trigger = (t, more)) : Moves s event t more := by
  unfold install at h
  split at h
  · cases h
    exact .refuses hevent
  · rename_i hup
    split at h
    · cases h
      exact .refuses hevent
    · rename_i hslot
      cases h
      exact .installs hevent hup (by simpa using hslot)

theorem moves_schedule {expression : String} (h : s.schedule expression = (t, more)) :
    Moves s (.schedule expression) t more := by
  unfold schedule at h
  split at h
  · cases h
    exact .refuses rfl
  · exact moves_install rfl h

theorem moves_runOnce (h : s.runOnce = (t, more)) : Moves s .runOnce t more := by
  unfold runOnce at h
  split at h
  · cases h
    exact .refuses rfl
  · rename_i hup
    split at h
    · cases h
      exact .refuses rfl
    · rename_i hheld
      cases h
      exact .starts rfl (.inl hup) (by simpa using hheld)

/-- Falling asleep changes nothing but the trigger tasks. -/
theorem sleep_eq (s : Scheduler) (now : Stamp) (task : TriggerTask) :
    ∃ tasks, s.sleep now task = { s with tasks } := by
  unfold sleep
  split
  · exact ⟨_, rfl⟩
  · exact ⟨_, rfl⟩

theorem moves_fire (hevent : event.isStop = false) {task : TriggerTask} {breaks : Bool}
    (h : s.fire now task breaks = (t, more)) : Moves s event t more := by
  unfold fire at h
  split at h
  · cases h
    exact .lingers hevent
  · rename_i hup
    have hup : s.shutdown = false := by simpa using hup
    split at h
    · obtain ⟨tasks, heq⟩ := sleep_eq s now task
      cases heq ▸ h
      exact .lingers hevent
    · rename_i hheld
      have hfree : s.lock.holder = none := by simpa using hheld
      split at h
      · cases h
        exact .breaks hevent hup hfree
      · obtain ⟨tasks, heq⟩ := sleep_eq s.enter now task
        cases heq ▸ h
        exact .starts hevent (.inr hup) hfree

theorem moves_seekLock {stop : Nat} (stops : List (Nat × Nat)) {u : Scheduler}
    (hu : event.isStop = true ∧ u = s.signal ∨
      event.isStop = false ∧ s.stops ≠ [] ∧ u = { s with stops })
    (h : u.seekLock stop = (t, more)) : Moves s event t more := by
  unfold seekLock at h
  split at h
  · cases h
    exact .queues hu
  · rename_i hheld
    have hlock : u.lock = s.lock := by
      rcases hu with ⟨-, rfl⟩ | ⟨-, -, rfl⟩ <;> rfl
    cases h
    exact .returns hu (by simpa [hlock] using hheld)

theorem moves_stop {number : Nat} (h : s.stop number = (t, more)) :
    Moves s (.stop number) t more := by
  unfold stop at h
  split at h
  · cases h
    exact .signals
  · exact moves_seekLock [] (.inl ⟨rfl, rfl⟩) h

theorem moves_goOn {number : Nat} (h : s.goOn number = some (t, more)) :
    Moves s (.goesOn number) t more := by
  unfold goOn at h
  split at h
  · rename_i hfind
    split at h
    · cases h
    · have hstops := List.ne_nil_of_mem (List.mem_of_find?_eq_some hfind)
      exact moves_seekLock _ (.inr ⟨rfl, hstops, rfl⟩) (Option.some.inj h)
  · cases h

/-- Every step is a move. -/
theorem moves_of_step (h : s.step now event = some (t, more)) : Moves s event t more := by
  cases event with
  | schedule expression => exact moves_schedule (Option.some.inj h)
  | interval period => exact moves_install rfl (Option.some.inj h)
  | runOnce => exact moves_runOnce (Option.some.inj h)
  | begins task =>
    obtain ⟨u, -, h⟩ := Option.map_eq_some_iff.1 h
    obtain ⟨tasks, heq⟩ := sleep_eq s now u
    cases heq ▸ h
    exact .lingers rfl
  | fires task breaks =>
    obtain ⟨u, -, h⟩ := Option.map_eq_some_iff.1 h
    exact moves_fire rfl h
  | notices task =>
    simp only [step] at h
    split at h
    · obtain ⟨u, -, h⟩ := Option.map_eq_some_iff.1 h
      cases h
      exact .lingers rfl
    · cases h
  | ends run how =>
    simp only [step] at h
    split at h
    · rename_i hrun
      cases h
      exact .ends hrun
    · cases h
  | stop number =>
    simp only [step] at h
    split at h
    · cases h
    · exact moves_stop (Option.some.inj h)
  | goesOn stop => exact moves_goOn h
  | locks stop =>
    simp only [step, pass] at h
    split at h
    · rename_i hholder
      cases h
      exact .passes hholder
    · cases h
  | abandons stop =>
    cases h
    exact .abandons

/-! ## Order -/

/-- What a scheduler shows when it is up and some runs are in progress. -/
def shown (runs : List Nat) : SchedulerState := if runs = [] then .idle else .running

/-- A scheduler in order. -/
structure Orderly (s : Scheduler) : Prop where
  runs_eq : s.runs = s.lock.held
  mark_eq : s.mark = if s.shutdown then .stopped else shown s.runs
  /-- Before a stop nothing but runs takes the lock. -/
  calm : s.shutdown = false →
    s.lock.waiting = [] ∧ s.stops = [] ∧ ∀ stop, s.lock.holder ≠ some (.stop stop)
  installed_eq : s.shutdown = false → s.installed = s.slot.toList.length
  installed_le : s.installed ≤ 1

theorem orderly_fresh : fresh.Orderly where
  runs_eq := rfl
  mark_eq := rfl
  calm _ := ⟨rfl, rfl, fun _ h => by cases h⟩
  installed_eq _ := rfl
  installed_le := Nat.zero_le 1

theorem Orderly.mark_ne_stopped (h : s.Orderly) : s.mark ≠ .stopped ↔ s.shutdown = false := by
  rw [h.mark_eq]
  cases s.shutdown with
  | true => simp
  | false =>
    rw [if_neg (by simp), shown]
    split <;> simp

theorem Orderly.runs_of_free (h : s.Orderly) (hfree : s.lock.holder = none) : s.runs = [] := by
  rw [h.runs_eq, RunLock.held, hfree]

theorem Orderly.runs_of_stop (h : s.Orderly) {stop : Nat}
    (hholder : s.lock.holder = some (.stop stop)) : s.runs = [] := by
  rw [h.runs_eq, RunLock.held, hholder]

/-- Without a run in progress and before a stop, the lock is free. -/
theorem Orderly.free (h : s.Orderly) (hup : s.shutdown = false) (hruns : s.runs = []) :
    s.lock.holder = none := by
  have hheld := h.runs_eq.symm.trans hruns
  cases hholder : s.lock.holder with
  | none => rfl
  | some holder =>
    cases holder with
    | run run => simp [RunLock.held, hholder] at hheld
    | stop stop => exact absurd hholder ((h.calm hup).2.2 stop)

theorem Orderly.withTasks (h : s.Orderly) (tasks : List TriggerTask) :
    Orderly { s with tasks } :=
  ⟨h.runs_eq, h.mark_eq, h.calm, h.installed_eq, h.installed_le⟩

/-- The free lock is taken by a run. -/
theorem Orderly.enter (h : s.Orderly) (hup : s.shutdown = false) (hfree : s.lock.holder = none) :
    s.enter.Orderly where
  runs_eq := by simp [Scheduler.enter, RunLock.held, h.runs_of_free hfree]
  mark_eq := by
    have hidle : s.mark = .idle := by simp [h.mark_eq, hup, shown, h.runs_of_free hfree]
    simp [Scheduler.enter, hidle, hup, shown]
  calm _ := ⟨(h.calm hup).1, (h.calm hup).2.1, fun _ hstop => by cases hstop⟩
  installed_eq := h.installed_eq
  installed_le := h.installed_le

theorem Orderly.runs_leave (h : s.Orderly) {run : Nat} (hrun : run ∈ s.runs) :
    (s.leave run).runs = [] := by
  rw [h.runs_eq, RunLock.held] at hrun
  have hruns := h.runs_eq
  rw [RunLock.held] at hruns
  split at hrun
  · rename_i hholder
    obtain rfl := List.mem_singleton.1 hrun
    rw [hholder] at hruns
    simp [Scheduler.leave, hruns]
  · cases hrun

/-- The run in progress lets go of the lock. -/
theorem Orderly.leave (h : s.Orderly) {run : Nat} (hrun : run ∈ s.runs) :
    (s.leave run).Orderly where
  runs_eq := by
    rw [h.runs_leave hrun]
    exact (RunLock.held_release s.lock).symm
  mark_eq := by
    rw [h.runs_leave hrun]
    show (if s.mark = .running then .idle else s.mark) = if s.shutdown then .stopped else .idle
    have hruns : s.runs ≠ [] := List.ne_nil_of_mem hrun
    cases hshutdown : s.shutdown <;> simp [h.mark_eq, hshutdown, shown, hruns]
  calm hup := by
    have hrelease : s.lock.release = ⟨none, []⟩ := by rw [RunLock.release, (h.calm hup).1]
    show s.lock.release.waiting = [] ∧ s.stops = [] ∧ ∀ stop, s.lock.release.holder ≠ _
    rw [hrelease]
    exact ⟨rfl, (h.calm hup).2.1, fun _ hstop => by cases hstop⟩
  installed_eq := h.installed_eq
  installed_le := h.installed_le

theorem Orderly.signal (h : s.Orderly) : s.signal.Orderly where
  runs_eq := h.runs_eq
  mark_eq := rfl
  calm hup := by cases hup
  installed_eq hup := by cases hup
  installed_le := h.installed_le

/-- After a stop the stops and the lock may change, as long as no run gets the lock. -/
theorem Orderly.stopped (h : s.Orderly) (hdown : s.shutdown = true) (stops : List (Nat × Nat))
    {lock : RunLock} (hlock : lock.held = s.runs) : Orderly { s with stops, lock } where
  runs_eq := hlock.symm
  mark_eq := h.mark_eq
  calm hup := by cases hdown.symm.trans hup
  installed_eq hup := by cases hdown.symm.trans hup
  installed_le := h.installed_le

/-- Only after a stop there is a stop that waits. -/
theorem Orderly.shutdown_of_stops (h : s.Orderly) (hstops : s.stops ≠ []) : s.shutdown = true := by
  cases hshutdown : s.shutdown with
  | true => rfl
  | false => exact absurd (h.calm hshutdown).2.1 hstops

theorem Orderly.shutdown_of_holder (h : s.Orderly) {stop : Nat}
    (hholder : s.lock.holder = some (.stop stop)) : s.shutdown = true := by
  cases hshutdown : s.shutdown with
  | true => rfl
  | false => exact absurd hholder ((h.calm hshutdown).2.2 stop)

theorem Orderly.abandon (h : s.Orderly) (stop : Nat) : (s.abandon stop).Orderly := by
  cases hshutdown : s.shutdown with
  | true =>
    refine h.stopped hshutdown _ ?_
    split
    · rename_i hholder
      rw [RunLock.held_release, h.runs_of_stop hholder]
    · exact h.runs_eq.symm
  | false =>
    -- there is no stop yet that could be given up
    obtain ⟨hwaiting, hstops, hholder⟩ := h.calm hshutdown
    have hlock : (⟨s.lock.holder, s.lock.waiting.filter (· != stop)⟩ : RunLock) = s.lock := by
      rw [hwaiting]
      exact congrArg (RunLock.mk s.lock.holder) hwaiting.symm
    have hlist : s.stops.filter (·.1 != stop) = s.stops := by
      rw [hstops]
      rfl
    have hsame : s.abandon stop = s := by
      simp only [Scheduler.abandon, hlock, hlist, if_neg (hholder stop)]
    rw [hsame]
    exact h

/-- Order is kept by every move. -/
theorem Orderly.move (h : s.Orderly) (hmove : Moves s event t more) : t.Orderly := by
  cases hmove with
  | refuses => exact h
  | installs _ hup hslot =>
    have hshutdown := h.mark_ne_stopped.1 hup
    have hnone : s.installed = 0 := by simp [h.installed_eq hshutdown, hslot]
    exact ⟨h.runs_eq, h.mark_eq, h.calm, fun _ => by simp [hnone], by simp [hnone]⟩
  | starts _ hup hfree =>
    have hshutdown := hup.elim h.mark_ne_stopped.1 id
    exact (h.enter hshutdown hfree).withTasks _
  | breaks _ hup hfree =>
    refine ((h.enter hup hfree).leave ?_).withTasks _
    simp [Scheduler.enter]
  | lingers => exact h.withTasks _
  | ends hrun => exact h.leave hrun
  | signals => exact h.signal.stopped rfl _ h.runs_eq.symm
  | queues ht =>
    rcases ht with ⟨-, rfl⟩ | ⟨-, hstops, rfl⟩
    · exact h.signal.stopped rfl _ h.runs_eq.symm
    · exact h.stopped (h.shutdown_of_stops hstops) _ h.runs_eq.symm
  | returns ht =>
    rcases ht with ⟨-, rfl⟩ | ⟨-, hstops, rfl⟩
    · exact h.signal
    · exact h.stopped (h.shutdown_of_stops hstops) _ h.runs_eq.symm
  | passes hholder =>
    refine h.stopped (h.shutdown_of_holder hholder) _ ?_
    rw [RunLock.held_release, h.runs_of_stop hholder]
  | abandons => exact h.abandon _

/-! ## What moves do -/

theorem Moves.shutdown (hmove : Moves s event t more) :
    t.shutdown = (s.shutdown || event.isStop) := by
  cases hmove with
  | refuses hevent | installs hevent | starts hevent | breaks hevent | lingers hevent =>
    rw [hevent]
    exact (Bool.or_false s.shutdown).symm
  | ends | passes | abandons => exact (Bool.or_false _).symm
  | signals => exact (Bool.or_true _).symm
  | queues ht | returns ht =>
    rcases ht with ⟨hevent, rfl⟩ | ⟨hevent, -, rfl⟩
    · rw [hevent, Bool.or_true]
      rfl
    · rw [hevent, Bool.or_false]

/-- A run starts only before a stop, and only when no other one is in progress. -/
theorem Moves.starts_of_mem (hmove : Moves s event t more) (h : s.Orderly) {run : Nat}
    (hrun : .starts run ∈ more) : s.shutdown = false ∧ s.runs = [] := by
  cases hmove with
  | starts _ hup hfree => exact ⟨hup.elim h.mark_ne_stopped.1 id, h.runs_of_free hfree⟩
  | breaks _ hup hfree => exact ⟨hup, h.runs_of_free hfree⟩
  | _ => simp at hrun

/-- A stop returns after a stop, and only when no run is in progress. -/
theorem Moves.returns_of_mem (hmove : Moves s event t more) (h : s.Orderly) {stop : Nat}
    (hstop : .returns stop ∈ more) : t.shutdown = true ∧ t.runs = [] := by
  cases hmove with
  | returns ht hfree =>
    rcases ht with ⟨-, rfl⟩ | ⟨-, hstops, rfl⟩
    · exact ⟨rfl, h.runs_of_free hfree⟩
    · exact ⟨h.shutdown_of_stops hstops, h.runs_of_free hfree⟩
  | passes hholder => exact ⟨h.shutdown_of_holder hholder, h.runs_of_stop hholder⟩
  | _ => simp at hstop

/-- No step lets a stop return and starts a run. -/
theorem Moves.starts_or_returns (hmove : Moves s event t more) {stop run : Nat}
    (hstop : .returns stop ∈ more) : .starts run ∉ more := by
  cases hmove with
  | returns | passes => simp
  | _ => simp at hstop

/-- After a stop a scheduler without run stays without one. -/
theorem Moves.stays_idle (hmove : Moves s event t more) (h : s.Orderly)
    (hdown : s.shutdown = true) (hruns : s.runs = []) : t.runs = [] := by
  cases hmove with
  | starts _ hup =>
    have hstarts := hup.elim h.mark_ne_stopped.1 id
    cases hdown.symm.trans hstarts
  | breaks _ hup => cases hdown.symm.trans hup
  | ends hrun =>
    rw [hruns] at hrun
    cases hrun
  | queues ht | returns ht => rcases ht with ⟨-, rfl⟩ | ⟨-, -, rfl⟩ <;> exact hruns
  | refuses | installs | lingers | signals | passes | abandons => exact hruns

/-! ## What has happened -/

/-- Whether a run has started and has not ended. -/
def InProgress (deeds : List SchedulerAction) (run : Nat) : Prop :=
  .starts run ∈ deeds ∧ ∀ how, .ended run how ∉ deeds

/-- The jobs that were installed. -/
def installedIn (deeds : List SchedulerAction) : List Nat :=
  deeds.filterMap fun
    | .installs task => some task
    | _ => none

/-- A scheduler holds what has happened. -/
structure Recorded (s : Scheduler) (deeds : List SchedulerAction) : Prop where
  progress : ∀ run, run ∈ s.runs ↔ InProgress deeds run
  started_lt : ∀ run, .starts run ∈ deeds → run < s.started
  ended_lt : ∀ run how, .ended run how ∈ deeds → run < s.started
  installed_eq : s.installed = (installedIn deeds).length

theorem recorded_fresh : fresh.Recorded [] where
  progress run := by simp [fresh, InProgress]
  started_lt run h := by cases h
  ended_lt run how h := by cases h
  installed_eq := rfl

variable {deeds : List SchedulerAction}

/-- Moves that neither start nor end a run. -/
theorem Recorded.same (h : s.Recorded deeds) (hruns : t.runs = s.runs)
    (hstarted : t.started = s.started)
    (hinstalled : t.installed = s.installed + (installedIn more).length)
    (hstarts : ∀ run, .starts run ∉ more) (hended : ∀ run how, .ended run how ∉ more) :
    t.Recorded (deeds ++ more) where
  progress run := by simp [hruns, h.progress, InProgress, hstarts, hended]
  started_lt run hrun := by
    have hmem : .starts run ∈ deeds := by simpa [hstarts] using hrun
    exact hstarted ▸ h.started_lt run hmem
  ended_lt run how hrun := by
    have hmem : .ended run how ∈ deeds := by simpa [hended] using hrun
    exact hstarted ▸ h.ended_lt run how hmem
  installed_eq := by
    rw [hinstalled, h.installed_eq]
    simp [installedIn]

/-- A run starts, under a number that no run had. -/
theorem Recorded.enter (h : s.Recorded deeds) (tasks : List TriggerTask) :
    Recorded { s.enter with tasks } (deeds ++ [.starts s.started]) where
  progress run := by
    show run ∈ s.runs ++ [s.started] ↔ _
    rw [List.mem_append, List.mem_singleton, h.progress]
    constructor
    · rintro (⟨hstarts, hended⟩ | rfl)
      · exact ⟨List.mem_append_left _ hstarts, by simpa using hended⟩
      · refine ⟨by simp, fun how hmem => Nat.lt_irrefl _ (h.ended_lt s.started how ?_)⟩
        simpa using hmem
    · rintro ⟨hstarts, hended⟩
      rcases List.mem_append.1 hstarts with hstarts | hstarts
      · exact .inl ⟨hstarts, fun how hmem => hended how (List.mem_append_left _ hmem)⟩
      · exact .inr (SchedulerAction.starts.inj (List.mem_singleton.1 hstarts))
  started_lt run hrun := by
    rcases List.mem_append.1 hrun with hrun | hrun
    · exact Nat.lt_succ_of_lt (h.started_lt run hrun)
    · cases List.mem_singleton.1 hrun
      exact Nat.lt_succ_self _
  ended_lt run how hrun := by
    have hmem : .ended run how ∈ deeds := by simpa using hrun
    exact Nat.lt_succ_of_lt (h.ended_lt run how hmem)
  installed_eq := h.installed_eq.trans (by simp [installedIn])

/-- A run in progress ends. -/
theorem Recorded.leave (h : s.Recorded deeds) {run : Nat} (hrun : run ∈ s.runs) (how : RunEnd)
    (tasks : List TriggerTask) :
    Recorded { s.leave run with tasks } (deeds ++ [.ended run how]) where
  progress other := by
    show other ∈ s.runs.filter (· != run) ↔ _
    rw [List.mem_filter, h.progress, bne_iff_ne]
    constructor
    · rintro ⟨⟨hstarts, hended⟩, hother⟩
      refine ⟨List.mem_append_left _ hstarts, fun how' hmem => ?_⟩
      rcases List.mem_append.1 hmem with hmem | hmem
      · exact hended how' hmem
      · cases List.mem_singleton.1 hmem
        exact hother rfl
    · rintro ⟨hstarts, hended⟩
      refine ⟨⟨by simpa using hstarts, fun how' hmem => ?_⟩, ?_⟩
      · exact hended how' (List.mem_append_left _ hmem)
      · rintro rfl
        exact hended how (List.mem_append_right _ (List.mem_singleton_self _))
  started_lt other hother := h.started_lt other (by simpa using hother)
  ended_lt other how' hother := by
    rcases List.mem_append.1 hother with hother | hother
    · exact h.ended_lt other how' hother
    · cases List.mem_singleton.1 hother
      exact h.started_lt run ((h.progress run).1 hrun).1
  installed_eq := h.installed_eq.trans (by simp [installedIn])

/-- What has happened is kept by every move. -/
theorem Recorded.move (h : s.Recorded deeds) (hmove : Moves s event t more) :
    t.Recorded (deeds ++ more) := by
  cases hmove with
  | refuses => exact h.same rfl rfl rfl (by simp) (by simp)
  | installs => exact h.same rfl rfl rfl (by simp) (by simp)
  | starts => exact h.enter _
  | breaks =>
    rw [List.append_cons]
    exact (h.enter s.enter.tasks).leave (by simp [Scheduler.enter]) .breaksDown _
  | lingers => exact h.same rfl rfl rfl (by simp) (by simp)
  | ends hrun => exact h.leave hrun _ s.tasks
  | signals => exact h.same rfl rfl rfl (by simp) (by simp)
  | queues ht =>
    rcases ht with ⟨-, rfl⟩ | ⟨-, -, rfl⟩
    all_goals exact h.same rfl rfl rfl (by simp) (by simp)
  | returns ht =>
    rcases ht with ⟨-, rfl⟩ | ⟨-, -, rfl⟩
    all_goals exact h.same rfl rfl rfl (by simp) (by simp)
  | passes => exact h.same rfl rfl rfl (by simp) (by simp)
  | abandons => exact h.same rfl rfl rfl (by simp) (by simp)

end Scheduler

end SignedRecords
