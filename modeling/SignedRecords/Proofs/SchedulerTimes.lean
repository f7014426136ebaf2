import Mathlib.Tactic.SplitIfs
import SignedRecords.Proofs.SchedulerRuns
import SignedRecords.Proofs.TriggerTimes

/-!
# Punctual schedulers

A scheduler whose timers are exact: the trigger task begins when its job is installed, the trigger
fires when it is due, and everything else happens at moments of its own. Then the trigger fires at
all moments at which it is due and at no other, one after the other, until its schedule ends. A run
starts at such a moment if none is in progress. Otherwise nothing starts, and nothing is started
later for it.

Main statements: `stands_step` and `timely_after`.
-/

namespace SignedRecords

/-! ## 1. Punctual events -/

namespace SchedulerEvent

/-- The trigger that an event asks to install. -/
def trigger? : SchedulerEvent → Option Trigger
  | .schedule expression => (Trigger.ofCron expression).toOption
  | .interval period => some (.every period)
  | _ => none

/-- Whether a trigger task begins. -/
def isBegin : SchedulerEvent → Bool
  | .begins _ => true
  | _ => false

/-- Whether a trigger fires. -/
def isFire : SchedulerEvent → Bool
  | .fires .. => true
  | _ => false

/-- Whether a trigger fires and the job breaks down as it is called. -/
def breaks : SchedulerEvent → Bool
  | .fires _ breaks => breaks
  | _ => false

end SchedulerEvent

namespace Scheduler

/-- The job, with its installation. Only the first one counts. -/
def job? : Past → Option (Stamp × Trigger)
  | [] => none
  | (now, event) :: past => (job? past).or (event.trigger?.map (now, ·))

/-- The moments at which a trigger has fired, the latest first. -/
def rings (past : Past) : List Int :=
  (past.filter (·.2.isFire)).map (·.1.sinceEpoch)

/-- When the trigger task last found out when its trigger fires next. -/
def lastWake? (past : Past) : Option Stamp :=
  (past.find? fun p => p.2.isBegin || p.2.isFire).map (·.1)

/-- When the trigger fires that the trigger task waits for. -/
def alarm? (s : Scheduler) (past : Past) : Option Int := do
  let task ← s.tasks.find? (·.sleeps)
  let wake ← lastWake? past
  let wait ← task.trigger.wait? wake
  return wake.sinceEpoch + wait

/-- Whether a moment is after all others so far, and before the alarm rings. -/
def Apart (s : Scheduler) (past : Past) (now : Stamp) : Prop :=
  (∀ task ∈ s.tasks, task.sleeps = true) ∧ (∀ p ∈ past, p.1.sinceEpoch < now.sinceEpoch) ∧
    ∀ x ∈ s.alarm? past, now.sinceEpoch < x

instance (s : Scheduler) (past : Past) (now : Stamp) : Decidable (s.Apart past now) :=
  inferInstanceAs (Decidable (_ ∧ _ ∧ _))

/-- Whether an event comes when it should. The trigger task begins when the job is installed, the
    trigger fires when its alarm rings, and everything else has a moment of its own. -/
def OnTime (s : Scheduler) (past : Past) (now : Stamp) : SchedulerEvent → Prop
  | .begins _ => ∃ p ∈ past.head?, p.1 = now
  | .fires _ breaks => s.alarm? past = some now.sinceEpoch ∧ (breaks = true → s.runs = [])
  | _ => s.Apart past now

instance (s : Scheduler) (past : Past) (now : Stamp) : DecidablePred (s.OnTime past now)
  | .begins _ => inferInstanceAs (Decidable (∃ p ∈ past.head?, p.1 = now))
  | .fires _ _ => inferInstanceAs (Decidable (_ ∧ (_ → _)))
  | .schedule _ | .interval _ | .runOnce | .notices _ | .ends .. | .stop _ | .goesOn _ | .locks _
  | .abandons _ => inferInstanceAs (Decidable (s.Apart past now))

/-- All events have come when they should. -/
def Punctual : Past → Prop
  | [] => True
  | (now, event) :: past => Punctual past ∧ ∀ r ∈ after past, r.1.OnTime past now event

instance decidablePunctual : DecidablePred Punctual
  | [] => inferInstanceAs (Decidable True)
  | (now, event) :: past =>
    have := decidablePunctual past
    inferInstanceAs (Decidable (Punctual past ∧ ∀ r ∈ after past, r.1.OnTime past now event))

variable {s t : Scheduler} {now : Stamp} {event : SchedulerEvent} {more : List SchedulerAction}
  {past : Past}

/-! ## 2. Steps before a stop -/

/-- An event that asks for a job installs it, if there is none yet. -/
theorem step_of_trigger {trigger : Trigger} (h : event.trigger? = some trigger) :
    s.step now event = some (s.install trigger) := by
  cases event with
  | schedule expression =>
    simp only [SchedulerEvent.trigger?] at h
    cases hparse : Trigger.ofCron expression with
    | error e =>
      rw [hparse] at h
      cases h
    | ok trigger' =>
      rw [hparse] at h
      cases h
      simp only [step, schedule, hparse]
  | interval period =>
    cases h
    rfl
  | _ => cases h

/-- Before a stop there is no signal to notice, and nothing that a stop could wait for. -/
theorem Orderly.step_of_up (h : s.Orderly) (hup : s.shutdown = false) (now : Stamp) :
    (∀ task, s.step now (.notices task) = none) ∧ (∀ stop, s.step now (.goesOn stop) = none) ∧
      ∀ stop, s.step now (.locks stop) = none := by
  obtain ⟨-, hstops, hholder⟩ := h.calm hup
  refine ⟨fun _ => if_neg (Bool.eq_false_iff.1 hup), fun stop => ?_,
    fun stop => if_neg (hholder stop)⟩
  show s.goOn stop = none
  rw [goOn, hstops]
  rfl

/-- Only a job that is installed, and the trigger task itself, change anything about the trigger;
    and of all other events only work on demand starts anything. -/
theorem Orderly.step_aside (h : s.Orderly) (hup : s.shutdown = false)
    (hstep : s.step now event = some (t, more)) (hstop : event.isStop = false)
    (htrigger : event.trigger? = none) (hbegin : event.isBegin = false)
    (hfire : event.isFire = false) :
    (t.tasks = s.tasks ∧ t.slot = s.slot ∧ t.installed = s.installed) ∧
      (event ≠ .runOnce → ∀ run, .starts run ∉ more) := by
  obtain ⟨hnotices, hgoesOn, hlocks⟩ := h.step_of_up hup now
  cases event with
  | schedule expression =>
    simp only [SchedulerEvent.trigger?] at htrigger
    cases hparse : Trigger.ofCron expression with
    | error e =>
      simp only [step, schedule, hparse] at hstep
      cases hstep
      exact ⟨⟨rfl, rfl, rfl⟩, fun _ run => by simp⟩
    | ok trigger =>
      rw [hparse] at htrigger
      cases htrigger
  | interval period => cases htrigger
  | runOnce =>
    refine ⟨?_, fun honce => absurd rfl honce⟩
    simp only [step, runOnce] at hstep
    split_ifs at hstep <;> cases hstep <;> exact ⟨rfl, rfl, rfl⟩
  | begins task => cases hbegin
  | fires task breaks => cases hfire
  | notices task => cases (hnotices task).symm.trans hstep
  | ends run how =>
    simp only [step] at hstep
    split_ifs at hstep
    cases hstep
    exact ⟨⟨rfl, rfl, rfl⟩, fun _ run => by simp⟩
  | stop number => cases hstop
  | goesOn stop => cases (hgoesOn stop).symm.trans hstep
  | locks stop => cases (hlocks stop).symm.trans hstep
  | abandons stop =>
    cases hstep
    exact ⟨⟨rfl, rfl, rfl⟩, fun _ run => by simp⟩

theorem no_starts_of_install {trigger : Trigger} (h : s.install trigger = (t, more)) (run : Nat) :
    .starts run ∉ more := by
  unfold install at h
  split_ifs at h <;> cases h <;> simp

theorem Orderly.no_starts (h : s.Orderly) (hup : s.shutdown = false)
    (hstep : s.step now event = some (t, more)) (hstop : event.isStop = false)
    (hfire : event.isFire = false) (honce : event ≠ .runOnce) (run : Nat) :
    .starts run ∉ more := by
  cases htrigger : event.trigger? with
  | some trigger =>
    exact no_starts_of_install (Option.some.inj ((step_of_trigger htrigger).symm.trans hstep)) run
  | none =>
    cases hbegin : event.isBegin with
    | false => exact (h.step_aside hup hstep hstop htrigger hbegin hfire).2 honce run
    | true =>
      cases event with
      | begins task =>
        obtain ⟨u, -, heq⟩ := Option.map_eq_some_iff.1 hstep
        cases heq
        simp
      | _ => cases hbegin

/-- A run starts when the trigger fires or when one is asked for, if none is in progress, and at no
    other time. -/
theorem Orderly.starts_iff (h : s.Orderly) (hup : s.shutdown = false)
    (hstep : s.step now event = some (t, more)) (hstop : event.isStop = false) :
    (∃ run, .starts run ∈ more) ↔ (event.isFire = true ∨ event = .runOnce) ∧ s.runs = [] := by
  constructor
  · rintro ⟨run, hrun⟩
    refine ⟨?_, ((moves_of_step hstep).starts_of_mem h hrun).2⟩
    refine Classical.or_iff_not_imp_left.2 fun hfire => Classical.not_not.1 fun honce => ?_
    exact h.no_starts hup hstep hstop (Bool.eq_false_iff.2 hfire) honce run hrun
  · rintro ⟨hevent, hruns⟩
    have hfree := h.free hup hruns
    cases event with
    | runOnce =>
      obtain ⟨run, u, hstarts, -⟩ := step_runOnce_free h hup hruns now
      cases hstarts.symm.trans hstep
      exact ⟨run, List.mem_singleton_self _⟩
    | fires task breaks =>
      obtain ⟨u, -, heq⟩ := Option.map_eq_some_iff.1 hstep
      simp only [fire, hup, hfree, Option.isSome_none, Bool.false_eq_true, if_false] at heq
      refine ⟨s.started, ?_⟩
      cases breaks <;> cases heq <;> simp
    | _ => simp [SchedulerEvent.isFire] at hevent

/-! ## 3. The trigger task -/

/-- The trigger task is the only one, and waits or not. -/
def HasTask (s : Scheduler) (trigger : Trigger) (sleeps : Bool) : Prop :=
  s.tasks = [⟨0, trigger, sleeps⟩]

variable {start : Stamp} {trigger : Trigger} {sleeps : Bool}

theorem HasTask.task?_eq (h : s.HasTask trigger sleeps) {task : Nat} {u : TriggerTask}
    {sleeps' : Bool} (hu : s.task? task sleeps' = some u) :
    u = ⟨0, trigger, sleeps⟩ ∧ sleeps' = sleeps := by
  rw [task?, h] at hu
  have hmem := List.mem_singleton.1 (List.mem_of_find?_eq_some hu)
  have hfound := List.find?_some hu
  subst hmem
  simp only [Bool.and_eq_true, beq_iff_eq] at hfound
  exact ⟨rfl, hfound.2.symm⟩

theorem HasTask.task?_zero (h : s.HasTask trigger sleeps) :
    s.task? 0 sleeps = some ⟨0, trigger, sleeps⟩ := by
  rw [task?, h]
  simp

/-- The task falls asleep if its trigger is due again, and ends if it is not. -/
theorem HasTask.tasks_sleep (h : s.HasTask trigger sleeps) (now : Stamp) :
    (s.sleep now ⟨0, trigger, sleeps⟩).tasks =
      if (trigger.wait? now).isSome then [⟨0, trigger, true⟩] else [] := by
  unfold HasTask at h
  unfold Scheduler.sleep
  cases hwait : trigger.wait? now with
  | some d => simp [h]
  | none => simp [dropTask, h]

theorem HasTask.alarm?_eq (h : s.HasTask trigger true) {wake : Stamp}
    (hwake : lastWake? past = some wake) :
    s.alarm? past = (trigger.wait? wake).map (wake.sinceEpoch + ·) := by
  unfold HasTask at h
  unfold alarm?
  rw [h, hwake]
  cases hwait : trigger.wait? wake <;> simp [hwait]

/-! ## 4. Where the trigger stands -/

/-- The moments at which a trigger has fired are some at which it was due, in their order. -/
structure Fired (start : Stamp) (trigger : Trigger) (fired : List Int) : Prop where
  due : ∀ x ∈ fired, trigger.Due start x
  ordered : fired.Pairwise (· > ·)

/-- The first moment at which a trigger is due and has not fired yet. -/
structure NextDue (start : Stamp) (trigger : Trigger) (fired : List Int) (x : Int) : Prop where
  due : trigger.Due start x
  after : ∀ y ∈ fired, y < x
  least : ∀ y, trigger.Due start y → y < x → y ∈ fired

/-- A trigger that fires when it is due next has then fired at all moments so far. -/
theorem Fired.next {start : Stamp} {trigger : Trigger} {fired : List Int} {x : Int}
    (h : Fired start trigger fired) (hnext : NextDue start trigger fired x) :
    Fired start trigger (x :: fired) ∧ ∀ y, trigger.Due start y → (y ∈ x :: fired ↔ y ≤ x) := by
  refine ⟨⟨List.forall_mem_cons.2 ⟨hnext.due, h.due⟩,
    List.pairwise_cons.2 ⟨hnext.after, h.ordered⟩⟩, fun y hy => ?_⟩
  rw [List.mem_cons]
  constructor
  · exact fun hmem => hmem.elim Int.le_of_eq fun hmem => Int.le_of_lt (hnext.after y hmem)
  · exact fun hle => (Int.lt_or_eq_of_le hle).symm.imp_right (hnext.least y hy)

/-- Where the trigger of a scheduler stands after punctual events. -/
inductive Stands (past : Past) (s : Scheduler) : Prop where
  | vacant (htasks : s.tasks = []) (hslot : s.slot = none) (hinstalled : s.installed = 0)
      (hjob : job? past = none) (hrings : rings past = [])
  /-- The job has just been installed. -/
  | set {start : Stamp} {trigger : Trigger} (htask : s.HasTask trigger false)
      (hslot : s.slot = some 0) (hjob : job? past = some (start, trigger))
      (hrings : rings past = []) (hhead : ∃ p ∈ past.head?, p.1 = start)
      (hpast : ∀ p ∈ past, p.1.sinceEpoch ≤ start.sinceEpoch)
  | waits {start : Stamp} {trigger : Trigger} {x : Int} (htask : s.HasTask trigger true)
      (hslot : s.slot = some 0) (hjob : job? past = some (start, trigger))
      (hfired : Fired start trigger (rings past)) (halarm : s.alarm? past = some x)
      (hnext : NextDue start trigger (rings past) x) (hpast : ∀ p ∈ past, p.1.sinceEpoch < x)
  /-- The schedule has ended, or the job has broken down as it was called. -/
  | spent {start : Stamp} {trigger : Trigger} (htasks : s.tasks = []) (hslot : s.slot = some 0)
      (hjob : job? past = some (start, trigger)) (hfired : Fired start trigger (rings past))
      (hdone : (∀ y, trigger.Due start y → y ∈ rings past) ∨ ∃ p ∈ past, p.2.breaks = true ∧
        ∀ y, trigger.Due start y → y ≤ p.1.sinceEpoch → y ∈ rings past)

theorem rings_cons_of_fire {p : Stamp × SchedulerEvent} (h : p.2.isFire = true) (past : Past) :
    rings (p :: past) = p.1.sinceEpoch :: rings past := by
  simp [rings, h]

theorem rings_cons_of_not {p : Stamp × SchedulerEvent} (h : p.2.isFire = false) (past : Past) :
    rings (p :: past) = rings past := by
  simp [rings, h]

theorem job?_cons_of_some {p : Stamp × SchedulerEvent} {job : Stamp × Trigger}
    (h : job? past = some job) : job? (p :: past) = some job := by
  simp [job?, h]

theorem lastWake?_cons_of_not {p : Stamp × SchedulerEvent} (hbegin : p.2.isBegin = false)
    (hfire : p.2.isFire = false) (past : Past) : lastWake? (p :: past) = lastWake? past := by
  simp [lastWake?, hbegin, hfire]

/-- An event that is neither of the trigger task comes at a moment of its own. -/
theorem OnTime.other (h : s.OnTime past now event) (hbegin : event.isBegin = false)
    (hfire : event.isFire = false) : s.Apart past now := by
  cases event with
  | begins => cases hbegin
  | fires => cases hfire
  | _ => exact h

/-- Whatever leaves the trigger task alone leaves the trigger where it stands. -/
theorem Stands.keeps (h : Stands past s) (hontime : s.OnTime past now event)
    (hbegin : event.isBegin = false) (hfire : event.isFire = false)
    (htrigger : s.slot = none → event.trigger? = none) (htasks : t.tasks = s.tasks)
    (hslot : t.slot = s.slot) (hinstalled : t.installed = s.installed) :
    Stands ((now, event) :: past) t := by
  obtain ⟨hasleep, -, hbefore⟩ := hontime.other hbegin hfire
  have hrings := rings_cons_of_not (p := (now, event)) hfire past
  have halarm : t.alarm? ((now, event) :: past) = s.alarm? past := by
    unfold alarm?
    rw [htasks, lastWake?_cons_of_not hbegin hfire]
  cases h with
  | vacant htasks' hslot' hinstalled' hjob hrings' =>
    refine .vacant (htasks.trans htasks') (hslot.trans hslot') (hinstalled.trans hinstalled') ?_
      (hrings.trans hrings')
    simp [job?, hjob, htrigger hslot']
  | set htask =>
    rw [htask] at hasleep
    cases hasleep _ (List.mem_singleton_self _)
  | waits htask hslot' hjob hfired halarm' hnext hpast =>
    rw [← hrings] at hfired hnext
    refine .waits (htasks.trans htask) (hslot.trans hslot') (job?_cons_of_some hjob) hfired
      (halarm.trans halarm') hnext (List.forall_mem_cons.2 ⟨hbefore _ halarm', hpast⟩)
  | spent htasks' hslot' hjob hfired hdone =>
    rw [← hrings] at hfired hdone
    refine .spent (htasks.trans htasks') (hslot.trans hslot') (job?_cons_of_some hjob) hfired ?_
    exact hdone.imp_right fun ⟨p, hp, hbroken⟩ => ⟨p, List.mem_cons_of_mem _ hp, hbroken⟩

/-- A trigger task that finds out when its trigger fires next waits for that moment, or ends. -/
theorem stands_wake (hsound : trigger.Sound start)
    (htasks : t.tasks = if (trigger.wait? now).isSome then [⟨0, trigger, true⟩] else [])
    (hslot : t.slot = some 0) (hjob : job? past = some (start, trigger))
    (hwake : (event.isBegin || event.isFire) = true)
    (hnow : now = start ∨ trigger.Due start now.sinceEpoch)
    (hfired : Fired start trigger (rings ((now, event) :: past)))
    (hall : ∀ y, trigger.Due start y → (y ∈ rings ((now, event) :: past) ↔ y ≤ now.sinceEpoch))
    (hpast : ∀ p ∈ past, p.1.sinceEpoch ≤ now.sinceEpoch) :
    Stands ((now, event) :: past) t := by
  have hnext := Trigger.wait?_next hsound hnow
  have hlast : lastWake? ((now, event) :: past) = some now := by simp [lastWake?, hwake]
  cases hwait : trigger.wait? now with
  | none =>
    rw [hwait] at hnext htasks
    exact .spent htasks hslot (job?_cons_of_some hjob) hfired
      (.inl fun y hy => (hall y hy).2 (hnext y hy))
  | some d =>
    rw [hwait] at hnext htasks
    obtain ⟨hpos, hdue, hleast⟩ := hnext
    have htask : t.HasTask trigger true := htasks
    refine .waits htask hslot (job?_cons_of_some hjob) hfired ?_ ⟨hdue, ?_, ?_⟩ ?_
    · rw [htask.alarm?_eq hlast, hwait]
      rfl
    · intro y hy
      have := (hall y (hfired.due y hy)).1 hy
      omega
    · intro y hy hlt
      refine (hall y hy).2 (Int.not_lt.1 fun hafter => ?_)
      have := hleast y hy hafter
      omega
    · refine List.forall_mem_cons.2 ⟨?_, fun p hp => ?_⟩
      · show now.sinceEpoch < now.sinceEpoch + d
        omega
      · have := hpast p hp
        omega

/-- A job is installed where there is none; otherwise it is refused. -/
theorem stands_installs (h : Stands past s) (horder : s.Orderly) (hup : s.shutdown = false)
    (hontime : s.OnTime past now event) (htrigger : event.trigger? = some trigger)
    (hstep : s.step now event = some (t, more)) : Stands ((now, event) :: past) t := by
  have hbegin : event.isBegin = false := by cases event <;> first | rfl | cases htrigger
  have hfire : event.isFire = false := by cases event <;> first | rfl | cases htrigger
  rw [step_of_trigger htrigger, Option.some.injEq, install,
    if_neg (horder.mark_ne_stopped.2 hup)] at hstep
  by_cases hslot : s.slot = none
  · rw [if_neg (by simp [hslot])] at hstep
    cases h with
    | vacant htasks hslot' hinstalled hjob hrings =>
      cases hstep
      have hjob' : job? ((now, event) :: past) = some (now, trigger) := by
        simp [job?, hjob, htrigger]
      refine .set ?_ ?_ hjob' ?_ ⟨_, rfl, rfl⟩ ?_
      · simp [HasTask, htasks, hinstalled]
      · simp [hinstalled]
      · exact (rings_cons_of_not hfire past).trans hrings
      · refine List.forall_mem_cons.2 ⟨Int.le_refl _, fun p hp => Int.le_of_lt ?_⟩
        exact (hontime.other hbegin hfire).2.1 p hp
    | set _ hslot' => cases hslot.symm.trans hslot'
    | waits _ hslot' => cases hslot.symm.trans hslot'
    | spent _ hslot' => cases hslot.symm.trans hslot'
  · rw [if_pos (Option.isSome_iff_ne_none.2 hslot)] at hstep
    cases hstep
    exact h.keeps hontime hbegin hfire (fun hnone => absurd hnone hslot) rfl rfl rfl

/-- The trigger task begins. -/
theorem stands_begins (h : Stands past s)
    (hsound : ∀ start trigger, job? past = some (start, trigger) → trigger.Sound start)
    {task : Nat} (hontime : s.OnTime past now (.begins task))
    (hstep : s.step now (.begins task) = some (t, more)) :
    Stands ((now, .begins task) :: past) t := by
  obtain ⟨u, htask?, heq⟩ := Option.map_eq_some_iff.1 hstep
  have hsleep : s.sleep now u = t := congrArg Prod.fst heq
  cases h with
  | @set start trigger htask hslot hjob hrings hhead hpast =>
    obtain ⟨rfl, -⟩ := htask.task?_eq htask?
    obtain ⟨p, hp, rfl⟩ := hhead
    obtain ⟨q, hq, rfl⟩ := hontime
    obtain rfl : p = q := Option.mem_unique hp hq
    have hrings' : rings ((p.1, .begins task) :: past) = [] :=
      (rings_cons_of_not rfl past).trans hrings
    obtain ⟨tasks, htasks⟩ := sleep_eq s p.1 ⟨0, trigger, false⟩
    refine stands_wake (hsound _ _ hjob) (hsleep ▸ htask.tasks_sleep p.1) ?_ hjob rfl (.inl rfl)
      ?_ ?_ hpast
    · rw [← hsleep, htasks]
      exact hslot
    · rw [hrings']
      exact ⟨fun x hx => (nomatch hx), .nil⟩
    · intro y hy
      have := hy.after_start (hsound _ _ hjob)
      rw [hrings']
      simpa using this
  | vacant htasks => simp [task?, htasks] at htask?
  | waits htask => cases (htask.task?_eq htask?).2
  | spent htasks => simp [task?, htasks] at htask?

/-- The trigger fires. -/
theorem stands_fires (h : Stands past s) (hup : s.shutdown = false)
    (hsound : ∀ start trigger, job? past = some (start, trigger) → trigger.Sound start)
    {task : Nat} {breaks : Bool} (hontime : s.OnTime past now (.fires task breaks))
    (hstep : s.step now (.fires task breaks) = some (t, more)) :
    Stands ((now, .fires task breaks) :: past) t := by
  obtain ⟨u, htask?, heq⟩ := Option.map_eq_some_iff.1 hstep
  cases h with
  | @waits start trigger x htask hslot hjob hfired halarm hnext hpast =>
    obtain ⟨rfl, -⟩ := htask.task?_eq htask?
    obtain ⟨hrings, -⟩ := hontime
    obtain rfl : x = now.sinceEpoch := Option.some.inj (halarm.symm.trans hrings)
    obtain ⟨hfired', hall⟩ := hfired.next hnext
    rw [← rings_cons_of_fire (p := (now, .fires task breaks)) rfl past] at hfired' hall
    have hwakes : ∀ {r : Scheduler}, r.tasks = s.tasks → r.slot = s.slot →
        t = r.sleep now ⟨0, trigger, true⟩ → Stands ((now, .fires task breaks) :: past) t := by
      rintro r htasks hslot' rfl
      have htask' : r.HasTask trigger true := htasks.trans htask
      obtain ⟨tasks, hsleep⟩ := sleep_eq r now ⟨0, trigger, true⟩
      refine stands_wake (hsound _ _ hjob) (htask'.tasks_sleep now) ?_ hjob rfl
        (.inr hnext.due) hfired' hall fun p hp => Int.le_of_lt (hpast p hp)
      rw [hsleep]
      exact hslot'.trans hslot
    rw [fire, if_neg (by simp [hup])] at heq
    by_cases hlock : s.lock.holder = none
    · rw [if_neg (by simp [hlock])] at heq
      cases breaks with
      | true =>
        -- the job breaks down, and the trigger task goes with it
        rw [if_pos rfl] at heq
        cases heq
        refine .spent ?_ hslot (job?_cons_of_some hjob) hfired'
          (.inr ⟨_, List.mem_cons_self, rfl, ?_⟩)
        · show (s.tasks.filter _) = []
          rw [htask]
          rfl
        · exact fun y hy hle => (hall y hy).2 hle
      | false =>
        rw [if_neg Bool.false_ne_true] at heq
        cases heq
        exact hwakes (r := s.enter) rfl rfl rfl
    · rw [if_pos (Option.isSome_iff_ne_none.2 hlock)] at heq
      cases heq
      exact hwakes rfl rfl rfl
  | vacant htasks => simp [task?, htasks] at htask?
  | set htask => cases (htask.task?_eq htask?).2
  | spent htasks => simp [task?, htasks] at htask?

/-- What one punctual event before a stop does to the trigger. -/
theorem stands_step (h : Stands past s) (horder : s.Orderly) (hup : s.shutdown = false)
    (hsound : ∀ start trigger, job? past = some (start, trigger) → trigger.Sound start)
    (hontime : s.OnTime past now event) (hstop : event.isStop = false)
    (hstep : s.step now event = some (t, more)) : Stands ((now, event) :: past) t := by
  cases htrigger : event.trigger? with
  | some trigger => exact stands_installs h horder hup hontime htrigger hstep
  | none =>
    cases hbegin : event.isBegin with
    | true =>
      cases event with
      | begins task => exact stands_begins h hsound hontime hstep
      | _ => cases hbegin
    | false =>
      cases hfire : event.isFire with
      | true =>
        cases event with
        | fires task breaks => exact stands_fires h hup hsound hontime hstep
        | _ => cases hfire
      | false =>
        obtain ⟨⟨htasks, hslot, hinstalled⟩, -⟩ :=
          horder.step_aside hup hstep hstop htrigger hbegin hfire
        exact h.keeps hontime hbegin hfire (fun _ => htrigger) htasks hslot hinstalled

/-- Where the trigger stands after punctual events without a stop. -/
theorem stands_after {deeds : List SchedulerAction} (h : after past = some (s, deeds))
    (hpunctual : Punctual past) (hno : ¬StopCalled past)
    (hsound : ∀ start trigger, job? past = some (start, trigger) → trigger.Sound start) :
    Stands past s := by
  induction past generalizing s deeds with
  | nil =>
    cases h
    exact .vacant rfl rfl rfl rfl rfl
  | cons p past ih =>
    obtain ⟨r, before, more, hpast, hstep, rfl⟩ := after_cons h
    obtain ⟨hpunctual, hontime⟩ := hpunctual
    have hontime : r.OnTime past p.1 p.2 := hontime _ hpast
    have hno' : ¬StopCalled past := fun ⟨q, hq, hstop⟩ => hno ⟨q, List.mem_cons_of_mem _ hq, hstop⟩
    have hstop : p.2.isStop = false :=
      Bool.eq_false_iff.2 fun hstop => hno ⟨p, List.mem_cons_self, hstop⟩
    have hup : r.shutdown = false :=
      Bool.eq_false_iff.2 fun hdown => hno' ((shutdown_after hpast).1 hdown)
    have hsound' : ∀ start trigger, job? past = some (start, trigger) → trigger.Sound start :=
      fun start trigger hjob => hsound start trigger (job?_cons_of_some hjob)
    exact stands_step (ih hpast hpunctual hno' hsound') (orderly_after hpast) hup hsound' hontime
      hstop hstep

/-! ## 5. Punctual runs -/

/-- What the job of a scheduler does after punctual events. -/
structure Timely (start : Stamp) (trigger : Trigger) (past : Past) (s : Scheduler)
    (deeds : List SchedulerAction) : Prop where
  installed : (installedIn deeds).length = 1
  /-- The trigger fires when it is due, and never twice at one moment. -/
  fired : Fired start trigger (rings past)
  /-- It leaves out no moment, unless the job has broken down before as it was called. -/
  complete : ∀ x, trigger.Due start x → (∃ p ∈ past, x ≤ p.1.sinceEpoch) →
    x ∈ rings past ∨ ∃ p ∈ past, p.2.breaks = true ∧ p.1.sinceEpoch < x
  /-- It goes on until no moment is left: its task can begin, or it fires when it is due next. -/
  goesOn : (∃ p ∈ past, p.2.breaks = true) ∨ (∀ x, trigger.Due start x → x ∈ rings past) ∨
    (s.OnTime past start (.begins 0) ∧ (s.step start (.begins 0)).isSome = true) ∨
    ∃ x, NextDue start trigger (rings past) x ∧ ∀ now, now.sinceEpoch = x →
      s.OnTime past now (.fires 0 false) ∧ (s.step now (.fires 0 false)).isSome = true
  /-- A run starts if no run is in progress when the trigger fires or one is asked for. At no other
      time does anything start, so what was dropped is not made up for. -/
  starts : ∀ now event t more, s.step now event = some (t, more) → event.isStop = false →
    ((∃ run, .starts run ∈ more) ↔
      (event.isFire = true ∨ event = .runOnce) ∧ ¬∃ run, InProgress deeds run)

theorem Stands.complete (h : Stands past s) (hjob : job? past = some (start, trigger))
    (hsound : trigger.Sound start) {x : Int} (hx : trigger.Due start x)
    (hpassed : ∃ p ∈ past, x ≤ p.1.sinceEpoch) :
    x ∈ rings past ∨ ∃ p ∈ past, p.2.breaks = true ∧ p.1.sinceEpoch < x := by
  obtain ⟨p, hp, hle⟩ := hpassed
  cases h with
  | vacant _ _ _ hjob' => cases hjob'.symm.trans hjob
  | set _ _ hjob' _ _ hpast =>
    cases hjob'.symm.trans hjob
    have := hpast p hp
    have := hx.after_start hsound
    omega
  | waits _ _ hjob' _ _ hnext hpast =>
    cases hjob'.symm.trans hjob
    exact .inl (hnext.least x hx (Int.lt_of_le_of_lt hle (hpast p hp)))
  | spent _ _ hjob' _ hdone =>
    cases hjob'.symm.trans hjob
    rcases hdone with hall | ⟨q, hq, hbroken, hall⟩
    · exact .inl (hall x hx)
    · by_cases hxq : x ≤ q.1.sinceEpoch
      · exact .inl (hall x hx hxq)
      · exact .inr ⟨q, hq, hbroken, Int.lt_of_not_ge hxq⟩

theorem Stands.goesOn (h : Stands past s) (hjob : job? past = some (start, trigger)) :
    (∃ p ∈ past, p.2.breaks = true) ∨ (∀ x, trigger.Due start x → x ∈ rings past) ∨
      (s.OnTime past start (.begins 0) ∧ (s.step start (.begins 0)).isSome = true) ∨
      ∃ x, NextDue start trigger (rings past) x ∧ ∀ now, now.sinceEpoch = x →
        s.OnTime past now (.fires 0 false) ∧ (s.step now (.fires 0 false)).isSome = true := by
  cases h with
  | vacant _ _ _ hjob' => cases hjob'.symm.trans hjob
  | set htask _ hjob' _ hhead =>
    cases hjob'.symm.trans hjob
    exact .inr (.inr (.inl ⟨hhead, by simp [step, htask.task?_zero]⟩))
  | @waits _ _ x htask _ hjob' _ halarm hnext =>
    cases hjob'.symm.trans hjob
    refine .inr (.inr (.inr ⟨x, hnext, ?_⟩))
    rintro now rfl
    exact ⟨⟨halarm, fun hbreaks => by cases hbreaks⟩, by simp [step, htask.task?_zero]⟩
  | spent _ _ hjob' _ hdone =>
    cases hjob'.symm.trans hjob
    rcases hdone with hall | ⟨q, hq, hbroken, -⟩
    · exact .inr (.inl hall)
    · exact .inl ⟨q, hq, hbroken⟩

theorem Stands.fired (h : Stands past s) (hjob : job? past = some (start, trigger)) :
    Fired start trigger (rings past) ∧ s.slot = some 0 := by
  cases h with
  | vacant _ _ _ hjob' => cases hjob'.symm.trans hjob
  | set _ hslot hjob' hrings =>
    rw [hrings]
    exact ⟨⟨fun x hx => (nomatch hx), .nil⟩, hslot⟩
  | waits _ hslot hjob' hfired =>
    cases hjob'.symm.trans hjob
    exact ⟨hfired, hslot⟩
  | spent _ hslot hjob' hfired =>
    cases hjob'.symm.trans hjob
    exact ⟨hfired, hslot⟩

/-- A job that is given a period or an expression runs when it should. After punctual events
    without a stop its trigger has fired at the moments at which it was due so far, each once and
    in their order, and it goes on with the next one; a run starts at such a moment if and only if
    none is in progress. -/
theorem timely_after {deeds : List SchedulerAction} (h : after past = some (s, deeds))
    (hpunctual : Punctual past) (hno : ¬StopCalled past)
    (hjob : job? past = some (start, trigger)) (hsound : trigger.Sound start) :
    Timely start trigger past s deeds := by
  have horder := orderly_after h
  have hrecorded := recorded_after h
  have hup : s.shutdown = false :=
    Bool.eq_false_iff.2 fun hdown => hno ((shutdown_after h).1 hdown)
  have hstands : Stands past s := stands_after h hpunctual hno fun start' trigger' hjob' => by
    cases hjob'.symm.trans hjob
    exact hsound
  obtain ⟨hfired, hslot⟩ := hstands.fired hjob
  refine ⟨?_, hfired, fun x hx => hstands.complete hjob hsound hx, hstands.goesOn hjob, ?_⟩
  · rw [← hrecorded.installed_eq, horder.installed_eq hup, hslot]
    rfl
  · intro now event t more hstep hstop
    rw [horder.starts_iff hup hstep hstop, hrecorded.runs_eq_nil]

/-- Events at some milliseconds after a second, given in their order. -/
def eventsFrom (second : Int) (events : List (Nat × SchedulerEvent)) : Past :=
  (events.map fun (ms, event) => (Stamp.ofClock second ms, event)).reverse

/-- A job every ten milliseconds. Work on demand ends before the trigger fires first, and the first
    run of the job goes on while it fires twice more. -/
def sampleInterval : Past :=
  eventsFrom 0 [(0, .interval 10), (0, .begins 0), (3, .runOnce), (7, .ends 0 .finishes),
    (10, .fires 0 false), (20, .fires 0 false), (30, .fires 0 false), (35, .ends 1 .breaksDown),
    (40, .fires 0 false)]

/-- A job every other minute, installed half a second after a full one. Work on demand goes on
    while the trigger fires first. -/
def sampleCron : Past :=
  eventsFrom 1767225600 [(500, .schedule "*/2 * * * *"), (500, .begins 0), (90000, .runOnce),
    (120000, .fires 0 false), (130000, .ends 0 .finishes), (240000, .fires 0 false)]

theorem timely_after_of_samples :
    (∃ s, after sampleInterval = some (s, [.installs 0, .starts 0, .ended 0 .finishes, .starts 1,
        .ended 1 .breaksDown, .starts 2]) ∧
      Timely (.ofClock 0 0) (.every 10) sampleInterval s [.installs 0, .starts 0,
        .ended 0 .finishes, .starts 1, .ended 1 .breaksDown, .starts 2]) ∧
    ∃ schedule s, Cron.parse? "*/2 * * * *" = some schedule ∧
      after sampleCron = some (s, [.installs 0, .starts 0, .ended 0 .finishes, .starts 1]) ∧
      Timely (.ofClock 1767225600 500) (.cron schedule) sampleCron s
        [.installs 0, .starts 0, .ended 0 .finishes, .starts 1] := by
  constructor
  · have hdeeds : (after sampleInterval).map (·.2) = some [.installs 0, .starts 0,
        .ended 0 .finishes, .starts 1, .ended 1 .breaksDown, .starts 2] := by decide +kernel
    obtain ⟨⟨s, deeds⟩, h, rfl⟩ := Option.map_eq_some_iff.1 hdeeds
    have hno : ¬StopCalled sampleInterval := by
      unfold StopCalled
      decide +kernel
    exact ⟨s, h, timely_after h (by decide +kernel) hno (by decide +kernel) (Nat.succ_pos 9)⟩
  · have hdeeds : (after sampleCron).map (·.2) =
        some [.installs 0, .starts 0, .ended 0 .finishes, .starts 1] := by decide +kernel
    obtain ⟨⟨s, deeds⟩, h, rfl⟩ := Option.map_eq_some_iff.1 hdeeds
    have hyears : (Cron.parse? "*/2 * * * *").map (·.years) = some Cron.years.all := by
      decide +kernel
    obtain ⟨schedule, hparse, hall⟩ := Option.map_eq_some_iff.1 hyears
    have hjob : job? sampleCron = (Cron.parse? "*/2 * * * *").map fun schedule =>
        (.ofClock 1767225600 500, .cron schedule) := by decide +kernel
    have hstart : 0 ≤ (Stamp.ofClock 1767225600 500).seconds.toInt := by decide +kernel
    have hsound := Trigger.sound_of_parse hparse (Cron.Schedule.yearsGoOn_of_all hall hstart)
    have hno : ¬StopCalled sampleCron := by
      unfold StopCalled
      decide +kernel
    exact ⟨schedule, s, hparse, h, timely_after h (by decide +kernel) hno
      (hjob.trans (congrArg _ hparse)) hsound⟩

end Scheduler

end SignedRecords
