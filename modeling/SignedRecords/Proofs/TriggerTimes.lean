import SignedRecords.Proofs.ScheduleSearch
import SignedRecords.Scheduler.Basic

/-!
# When triggers fire

A trigger with a period is due at its installation and every whole number of periods after it; one
with a schedule is due at every second of the schedule after its installation. A trigger never
counts these moments: each time it has fired it works out anew how long to wait. What it waits for
is always the next moment at which it is due, so no moment comes twice and none is left out.

For schedules this rests on the search for the next second.

Main statements: `Trigger.sound_of_parse` and `Trigger.wait?_next`.
-/

namespace SignedRecords

/-! ## 1. Moments -/

theorem Stamp.sinceEpoch_bounds (s : Stamp) :
    s.seconds.toInt * nanosPerSecond ≤ s.sinceEpoch ∧
      s.sinceEpoch < (s.seconds.toInt + 1) * nanosPerSecond := by
  have hnanos := s.nanos.isLt
  unfold sinceEpoch
  simp only [nanosPerSecond] at hnanos ⊢
  omega

/-- A full second comes after a moment if it comes after the second of the moment. -/
theorem Stamp.lt_second (s : Stamp) (second : Int) :
    s.sinceEpoch < second * nanosPerSecond ↔ s.seconds.toInt < second := by
  have hbounds := s.sinceEpoch_bounds
  simp only [nanosPerSecond] at hbounds ⊢
  omega

theorem Stamp.seconds_mono {s t : Stamp} (h : s.sinceEpoch ≤ t.sinceEpoch) :
    s.seconds.toInt ≤ t.seconds.toInt := by
  refine Int.not_lt.1 fun hlt => ?_
  have := (t.lt_second s.seconds.toInt).2 hlt
  have := s.sinceEpoch_bounds
  omega

/-! ## 2. Moments at which a trigger is due -/

namespace Trigger

/-- The moments at which a trigger is due that was installed at some moment. -/
def Due (start : Stamp) : Trigger → Int → Prop
  | .every period, x => ∃ n : Nat, 0 < n ∧
      x = start.sinceEpoch + (n * (period * nanosPerMilli) : Nat)
  | .cron schedule, x => start.sinceEpoch < x ∧ ∃ second : Int, x = second * nanosPerSecond ∧
      schedule.admits (.ofSeconds second) = true

/-- A trigger that can be relied on: its period is positive, or the search of its schedule finds the
    next second from the installation on. -/
def Sound (start : Stamp) : Trigger → Prop
  | .every period => 0 < period
  | .cron schedule => schedule.FindsNext start.seconds.toInt

variable {start : Stamp} {trigger : Trigger}

/-- A schedule that is read can be relied on as long as its years go on from the installation. -/
theorem sound_of_parse {expression : String} {schedule : Cron.Schedule}
    (h : Cron.parse? expression = some schedule)
    (hyears : schedule.YearsGoOn start.seconds.toInt) : (Trigger.cron schedule).Sound start :=
  Cron.Schedule.findsNext (Cron.Schedule.proper_of_read h) hyears

theorem Due.after_start (h : trigger.Sound start) {x : Int} (hx : trigger.Due start x) :
    start.sinceEpoch < x := by
  cases trigger with
  | cron schedule => exact hx.1
  | every period =>
    obtain ⟨n, hn, rfl⟩ := hx
    have hpos : 0 < n * (period * nanosPerMilli) :=
      Nat.mul_pos hn (Nat.mul_pos h (by decide))
    omega

/-- At its installation and whenever it is due, a trigger waits for the next moment at which it is
    due. If there is none it does not wait. -/
theorem wait?_next (h : trigger.Sound start) {now : Stamp}
    (hnow : now = start ∨ trigger.Due start now.sinceEpoch) :
    match trigger.wait? now with
    | some d => 0 < d ∧ trigger.Due start (now.sinceEpoch + d) ∧
        ∀ y, trigger.Due start y → now.sinceEpoch < y → now.sinceEpoch + d ≤ y
    | none => ∀ y, trigger.Due start y → y ≤ now.sinceEpoch := by
  cases trigger with
  | every period =>
    obtain ⟨m, hm⟩ : ∃ m : Nat,
        now.sinceEpoch = start.sinceEpoch + (m * (period * nanosPerMilli) : Nat) := by
      rcases hnow with rfl | ⟨m, -, hm⟩
      · exact ⟨0, by simp⟩
      · exact ⟨m, hm⟩
    have hpos : 0 < period * nanosPerMilli := Nat.mul_pos h (by decide)
    refine ⟨hpos, ⟨m + 1, Nat.succ_pos m, ?_⟩, ?_⟩
    · rw [hm, Nat.succ_mul]
      omega
    · rintro y ⟨n, -, rfl⟩ hlt
      -- a later multiple of the period is at least one period later
      have hmn : m < n := by
        refine Nat.lt_of_not_le fun hle => ?_
        have := Nat.mul_le_mul_right (period * nanosPerMilli) hle
        omega
      have := Nat.mul_le_mul_right (period * nanosPerMilli) (Nat.succ_le_of_lt hmn)
      rw [Nat.succ_mul] at this
      omega
  | cron schedule =>
    have hbegun : start.sinceEpoch ≤ now.sinceEpoch := by
      rcases hnow with rfl | ⟨hlt, -⟩
      · exact Int.le_refl _
      · exact Int.le_of_lt hlt
    have hnext := h now.seconds.toInt (Stamp.seconds_mono hbegun)
    simp only [wait?]
    cases hfound : schedule.next? now.seconds.toInt with
    | none =>
      rw [hfound] at hnext
      rintro y ⟨-, second, rfl, hadmits⟩
      refine Int.not_lt.1 fun hlt => ?_
      exact hnext second ⟨(now.lt_second second).1 hlt, hadmits⟩
    | some m =>
      rw [hfound] at hnext
      obtain ⟨⟨hlater, hadmits⟩, hleast⟩ := hnext
      have hlt := (now.lt_second m).2 hlater
      have hwait : now.sinceEpoch + ((m * nanosPerSecond - now.sinceEpoch).toNat : Int) =
          m * nanosPerSecond := by omega
      simp only [Option.map_some]
      rw [hwait]
      refine ⟨by omega, ⟨by omega, m, rfl, hadmits⟩, ?_⟩
      rintro y ⟨-, second, rfl, hsecond⟩ hy
      have hle := hleast second ⟨(now.lt_second second).1 hy, hsecond⟩
      exact Int.mul_le_mul_of_nonneg_right hle (by decide)

end Trigger

end SignedRecords
