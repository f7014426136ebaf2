import Mathlib.Data.List.Forall2
import SignedRecords.Proofs.ScheduleLevels

/-!
# The search of a schedule finds its next second

Every schedule that is read has values of its units in increasing order. For such a schedule the
search finds the least second after the given one that the schedule admits, and nothing if there is
none.

A year that lies ahead is searched from the starting month on, so the years of the schedule must go
on from the starting moment without a gap. They do from 1970 on if the expression does not name any.

Main statements: `Schedule.proper_of_read` and `Schedule.findsNext`.
-/

namespace SignedRecords.Cron

/-! ## 1. Schedules that are read -/

theorem TimeUnit.sorted_of_sublist {u : TimeUnit} {values : List Nat} (h : values.Sublist u.all) :
    values.Pairwise (· < ·) :=
  List.Pairwise.sublist h List.pairwise_lt_range'

theorem TimeUnit.bounds_of_sublist {u : TimeUnit} {values : List Nat} (h : values.Sublist u.all)
    {x : Nat} (hx : x ∈ values) : u.low ≤ x ∧ x ≤ u.high := by
  have := List.mem_range'_1.1 (h.subset hx)
  omega

namespace Schedule

variable {s : Schedule} {t u : Civil}

/-- The values of each unit are values that it has, in increasing order. -/
structure Proper (s : Schedule) : Prop where
  seconds : s.seconds.Sublist Cron.seconds.all
  minutes : s.minutes.Sublist Cron.minutes.all
  hours : s.hours.Sublist Cron.hours.all
  days : s.days.Sublist daysOfMonth.all
  months : s.months.Sublist Cron.months.all
  weekdays : s.weekdays.Sublist daysOfWeek.all
  years : s.years.Sublist Cron.years.all

theorem sublist_of_fieldValues {u : TimeUnit} {field : Field} {values : List Nat}
    (h : fieldValues? u field = some values) : values.Sublist u.all := by
  obtain ⟨parts, -, rfl⟩ := Option.map_eq_some_iff.1 h
  exact List.filter_sublist

theorem sublists_of_fields {units : List TimeUnit} {cs rest : List Char} {values : List (List Nat)}
    (h : fields units cs = some (values, rest)) :
    List.Forall₂ (fun u values => List.Sublist values u.all) units values := by
  induction units generalizing cs rest values with
  | nil =>
    cases h
    exact .nil
  | cons u units ih =>
    simp only [fields] at h
    split at h
    · split at h
      · rename_i first hfirst
        simp only [Reader.map] at h
        split at h
        · rename_i others after hothers
          cases h
          exact .cons (sublist_of_fieldValues hfirst) (ih hothers)
        · cases h
      · cases h
    · cases h

instance (s : Schedule) : Decidable s.Proper :=
  decidable_of_iff (s.seconds.Sublist Cron.seconds.all ∧ s.minutes.Sublist Cron.minutes.all ∧
      s.hours.Sublist Cron.hours.all ∧ s.days.Sublist daysOfMonth.all ∧
      s.months.Sublist Cron.months.all ∧ s.weekdays.Sublist daysOfWeek.all ∧
      s.years.Sublist Cron.years.all)
    ⟨fun ⟨hs, hi, hh, hd, hm, hw, hy⟩ => ⟨hs, hi, hh, hd, hm, hw, hy⟩,
      fun h => ⟨h.seconds, h.minutes, h.hours, h.days, h.months, h.weekdays, h.years⟩⟩

theorem proper_of_shorthand : ∀ entry ∈ shorthands, entry.2.Proper := by
  decide +kernel

/-- The fields of a schedule without a year. -/
theorem proper_of_units {values : List (List Nat)} {s : Schedule}
    (hvalues : List.Forall₂ (fun u values => List.Sublist values u.all) units values)
    (h : ofFields? values = some s) : s.Proper := by
  obtain _ | ⟨hs, _ | ⟨hi, _ | ⟨hh, _ | ⟨hd, _ | ⟨hm, _ | ⟨hw, _ | _⟩⟩⟩⟩⟩⟩ := hvalues
  cases h
  exact ⟨hs, hi, hh, hd, hm, hw, List.Sublist.refl _⟩

/-- The fields of a schedule with a year. -/
theorem proper_of_years {values : List (List Nat)} {s : Schedule}
    (hvalues : List.Forall₂ (fun u values => List.Sublist values u.all) (units ++ [Cron.years])
      values)
    (h : ofFields? values = some s) : s.Proper := by
  obtain _ | ⟨hs, _ | ⟨hi, _ | ⟨hh, _ | ⟨hd, _ | ⟨hm, _ | ⟨hw, _ | ⟨hy, _ | _⟩⟩⟩⟩⟩⟩⟩ := hvalues
  cases h
  exact ⟨hs, hi, hh, hd, hm, hw, hy⟩

theorem sublists_of_units {units : List TimeUnit} {cs : List Char} {values : List (List Nat)}
    (h : ofUnits? units cs = some values) :
    List.Forall₂ (fun u values => List.Sublist values u.all) units values := by
  unfold ofUnits? at h
  split at h
  · rename_i hfields
    cases h
    exact sublists_of_fields hfields
  · cases h

/-- Every schedule that is read is proper. -/
theorem proper_of_read {text : String} {s : Schedule} (h : read? text = some s) : s.Proper := by
  rcases Option.or_eq_some_iff.1 h with hshort | ⟨-, hlong⟩
  · obtain ⟨entry, hfound, rfl⟩ := Option.map_eq_some_iff.1 hshort
    exact proper_of_shorthand entry (List.mem_of_find?_eq_some hfound)
  · obtain ⟨values, hvalues, hfields⟩ := Option.bind_eq_some_iff.1 hlong
    rcases Option.or_eq_some_iff.1 hvalues with hsix | ⟨-, hseven⟩
    · exact proper_of_units (sublists_of_units hsix) hfields
    · exact proper_of_years (sublists_of_units hseven) hfields

/-! ## 2. What the search finds -/

theorem Proper.second_lt (hs : s.Proper) {second : Nat} (h : second ∈ s.seconds) : second < 60 :=
  Nat.lt_succ_of_le (TimeUnit.bounds_of_sublist hs.seconds h).2

theorem Proper.minute_lt (hs : s.Proper) {minute : Nat} (h : minute ∈ s.minutes) : minute < 60 :=
  Nat.lt_succ_of_le (TimeUnit.bounds_of_sublist hs.minutes h).2

theorem Proper.hour_lt (hs : s.Proper) {hour : Nat} (h : hour ∈ s.hours) : hour < 24 :=
  Nat.lt_succ_of_le (TimeUnit.bounds_of_sublist hs.hours h).2

section

variable (hs : s.Proper) (ht : t.Valid)

include hs

theorem secondsFrom_least (tight : Bool) :
    Least (fun second => second ∈ s.seconds ∧ (tight = true → (t.second : Int) ≤ second))
      (fun second => (second : Int)) (s.secondsFrom t tight) := by
  refine level_least id (fun _ => True) (fun _ _ => trivial) ?_
    (TimeUnit.sorted_of_sublist hs.seconds) (fun _ h => h) (fun _ _ => Nat.zero_le _)
    (fun _ => trivial) ?_
  · intro u v _ _ hlt
    exact Int.ofNat_lt.2 hlt
  · intro tight' x hx htight
    refine ⟨⟨⟨hx, rfl⟩, fun h => Int.le_of_eq ?_⟩, ?_⟩
    · rw [(htight h).2]
      rfl
    · rintro v ⟨⟨-, rfl⟩, -⟩
      exact Int.le_refl _

include ht

theorem minutesFrom_least (tight : Bool) :
    Least (fun u => (u.1 ∈ s.minutes ∧ u.2 ∈ s.seconds) ∧ (tight = true →
        (60 * t.minute : Nat) + (t.second : Int) ≤ (60 * u.1 : Nat) + (u.2 : Int)))
      (fun u => (60 * u.1 : Nat) + (u.2 : Int)) (s.minutesFrom t tight) :=
  pairs_least (fun second : Nat => (second : Int)) (TimeUnit.sorted_of_sublist hs.minutes)
    (fun _ _ => Nat.zero_le _)
    (fun u hu => ⟨Int.natCast_nonneg u, Int.ofNat_lt.2 (hs.second_lt hu)⟩)
    (fun _ => ⟨Int.natCast_nonneg _, Int.ofNat_lt.2 ht.second⟩) (secondsFrom_least hs)

/-- The least time of a day, or from the starting time on. -/
theorem hoursFrom_least (tight : Bool) :
    Least (fun u => (u.1 ∈ s.hours ∧ u.2.1 ∈ s.minutes ∧ u.2.2 ∈ s.seconds) ∧ (tight = true →
        (Civil.timeOf t.hour t.minute t.second : Int) ≤ Civil.timeOf u.1 u.2.1 u.2.2))
      (fun u => (Civil.timeOf u.1 u.2.1 u.2.2 : Int)) (s.hoursFrom t tight) := by
  have htime : ∀ hour minute second : Nat, (Civil.timeOf hour minute second : Int) =
      (3600 * hour : Nat) + ((60 * minute : Nat) + (second : Int)) := fun _ _ _ => by
    unfold Civil.timeOf
    omega
  simp only [htime]
  have := ht.minute
  have := ht.second
  refine pairs_least (fun u : Nat × Nat => (60 * u.1 : Nat) + (u.2 : Int))
    (t := (t.minute, t.second)) (TimeUnit.sorted_of_sublist hs.hours) (fun _ _ => Nat.zero_le _)
    (fun u hu => ?_) (fun _ => ?_) (minutesFrom_least hs ht)
  · have := hs.minute_lt hu.1
    have := hs.second_lt hu.2
    omega
  · dsimp only
    omega

end

theorem admits_iff (u : Civil) :
    s.admits u = true ↔ (u.hour ∈ s.hours ∧ u.minute ∈ s.minutes ∧ u.second ∈ s.seconds) ∧
      u.day ∈ s.days ∧ u.month ∈ s.months ∧ s.weekdays.contains u.weekday = true ∧
      ∃ year ∈ s.years, (year : Int) = u.year := by
  simp only [admits, Bool.and_eq_true, List.contains_iff_mem, List.any_eq_true, beq_iff_eq]
  tauto

/-- What the search looks for: a moment of the schedule that exists. -/
structure Candidate (s : Schedule) (u : Civil) : Prop where
  valid : u.Valid
  admitted : s.admits u = true

theorem Candidate.year (h : s.Candidate u) : ∃ year ∈ s.years, (year : Int) = u.year :=
  ((admits_iff u).1 h.admitted).2.2.2.2

/-- The day of the week is that of the date, whatever the time. -/
theorem bind_onDay (year month day : Nat) (times : Option (Nat × Nat × Nat)) :
    times.bind (s.onDay year month day) =
      if s.weekdays.contains (Civil.weekdayOf (Civil.daysOf year month day)) then
        times.map fun time => ⟨year, month, day, time.1, time.2.1, time.2.2⟩
      else none := by
  cases times with
  | none => exact (ite_self none).symm
  | some time => rfl

section

variable (hs : s.Proper) (ht : t.Valid) {tight : Bool} {year month day : Nat}

include hs ht

/-- The first moment of a day. -/
theorem onDay_least (hyear : year ∈ s.years) (hmonth : month ∈ s.months)
    (hday : day ∈ s.days.filter (· ≤ Civil.daysInMonth year month))
    (htight : tight = true → t.year = year ∧ t.month = month ∧ t.day = day) :
    Least (fun u => (((s.Candidate u ∧ u.year = year) ∧ u.month = month) ∧ u.day = day) ∧
        (tight = true → t.toSeconds ≤ u.toSeconds)) Civil.toSeconds
      ((s.hoursFrom t tight).bind (s.onDay year month day)) := by
  obtain ⟨hday, hlast⟩ := List.mem_filter.1 hday
  have hdate : Civil.ValidDate year month day :=
    ⟨(TimeUnit.bounds_of_sublist hs.months hmonth).1,
      (TimeUnit.bounds_of_sublist hs.months hmonth).2,
      (TimeUnit.bounds_of_sublist hs.days hday).1, of_decide_eq_true hlast⟩
  have hafter : ∀ u : Civil, u.year = year → u.month = month → u.day = day → tight = true →
      (t.toSeconds ≤ u.toSeconds ↔ (Civil.timeOf t.hour t.minute t.second : Int) ≤
        Civil.timeOf u.hour u.minute u.second) := by
    intro u hy hm hd h
    obtain ⟨hty, htm, htd⟩ := htight h
    exact Civil.toSeconds_le_iff_of_date (hty.trans hy.symm) (htm.trans hm.symm)
      (htd.trans hd.symm)
  rw [bind_onDay]
  split
  · rename_i hweekday
    refine (hoursFrom_least hs ht tight).map _ (fun u => ⟨?_, ?_⟩) fun u v hle => ?_
    · rintro ⟨⟨⟨⟨hu, hy⟩, hm⟩, rfl⟩, hle⟩
      refine ⟨(u.hour, u.minute, u.second), ⟨((admits_iff u).1 hu.admitted).1, fun h => ?_⟩, ?_⟩
      · exact (hafter u hy hm rfl h).1 (hle h)
      · rw [← hy, ← hm]
    · rintro ⟨⟨hour, minute, second⟩, ⟨htime, hle⟩, rfl⟩
      have hvalid : Civil.Valid ⟨year, month, day, hour, minute, second⟩ :=
        ⟨hdate, hs.hour_lt htime.1, hs.minute_lt htime.2.1, hs.second_lt htime.2.2⟩
      have hadmits := (admits_iff ⟨year, month, day, hour, minute, second⟩).2
        ⟨htime, hday, hmonth, hweekday, year, hyear, rfl⟩
      exact ⟨⟨⟨⟨⟨hvalid, hadmits⟩, rfl⟩, rfl⟩, rfl⟩,
        fun h => (hafter _ rfl rfl rfl h).2 (hle h)⟩
    · exact (Civil.toSeconds_le_iff_of_date (c := ⟨year, month, day, u.1, u.2.1, u.2.2⟩)
        (d := ⟨year, month, day, v.1, v.2.1, v.2.2⟩) rfl rfl rfl).2 hle
  · rename_i hweekday
    rintro u ⟨⟨⟨⟨hu, hy⟩, hm⟩, rfl⟩, -⟩
    have hadmits := ((admits_iff u).1 hu.admitted).2.2.2.1
    rw [Civil.weekday, hy, hm] at hadmits
    exact hweekday hadmits

/-- The first moment of a month. -/
theorem daysFrom_least (hyear : year ∈ s.years) (hmonth : month ∈ s.months)
    (htight : tight = true → t.year = year ∧ t.month = month) :
    Least (fun u => ((s.Candidate u ∧ u.year = year) ∧ u.month = month) ∧
        (tight = true → t.toSeconds ≤ u.toSeconds)) Civil.toSeconds
      (s.daysFrom t year month tight) := by
  refine level_least Civil.day (fun u => u.Valid ∧ u.year = year ∧ u.month = month)
    (fun u hu => ⟨hu.1.1.valid, hu.1.2, hu.2⟩) ?_
    ((TimeUnit.sorted_of_sublist hs.days).filter (· ≤ Civil.daysInMonth year month)) ?_ ?_ ?_ ?_
  · rintro u v ⟨hu, huy, hum⟩ ⟨hv, hvy, hvm⟩ hlt
    exact Civil.toSeconds_lt_of_day hu hv (huy.trans hvy.symm) (hum.trans hvm.symm) hlt
  · rintro u ⟨⟨hu, hy⟩, rfl⟩
    refine List.mem_filter.2 ⟨((admits_iff u).1 hu.admitted).2.1, decide_eq_true ?_⟩
    exact hy ▸ hu.valid.day_le
  · exact fun day hday => (TimeUnit.bounds_of_sublist hs.days (List.mem_filter.1 hday).1).1
  · exact fun h => ⟨ht, htight h⟩
  · intro tight' day hday htight'
    refine onDay_least hs ht hyear hmonth hday fun h => ?_
    obtain ⟨h, rfl⟩ := htight' h
    exact ⟨(htight h).1, (htight h).2, rfl⟩

/-- The first moment of a year. -/
theorem monthsFrom_least (hyear : year ∈ s.years) (htight : tight = true → t.year = year) :
    Least (fun u => (s.Candidate u ∧ u.year = year) ∧
        (tight = true → t.toSeconds ≤ u.toSeconds)) Civil.toSeconds
      (s.monthsFrom t year tight) := by
  refine level_least Civil.month (fun u => u.Valid ∧ u.year = year)
    (fun u hu => ⟨hu.1.valid, hu.2⟩) ?_ (TimeUnit.sorted_of_sublist hs.months) ?_ ?_ ?_ ?_
  · rintro u v ⟨hu, huy⟩ ⟨hv, hvy⟩ hlt
    exact Civil.toSeconds_lt_of_month hu hv (by omega)
  · exact fun u hu => ((admits_iff u).1 hu.1.admitted).2.2.1
  · exact fun month hmonth => (TimeUnit.bounds_of_sublist hs.months hmonth).1
  · exact fun h => ⟨ht, htight h⟩
  · intro tight' month hmonth htight'
    refine daysFrom_least hs ht hyear hmonth fun h => ?_
    obtain ⟨h, rfl⟩ := htight' h
    exact ⟨htight h, rfl⟩

/-- The search begins with the year of the starting moment, if the schedule has it. -/
theorem nextInYears_start {first : Nat} (hfirst : first ∈ s.years) (heq : (first : Int) = t.year) :
    nextInYears s t .start (s.years.filter fun year : Nat => t.year ≤ year) =
      level (fun tight year => s.monthsFrom t year tight) s.years t.year.toNat 0 true := by
  have hvalues : (s.years.filter fun year : Nat => t.year ≤ year) = fromBound s.years first :=
    List.filter_congr fun year _ => decide_eq_decide.2 (by omega)
  have hhead : (fromBound s.years first).head? = some first := by
    rw [fromBound_of_mem (TimeUnit.sorted_of_sublist hs.years) hfirst]
    rfl
  rw [hvalues, level, show t.year.toNat = first by omega, List.contains_iff_mem.2 hfirst]
  refine nextInYears_eq (TimeUnit.sorted_of_sublist hs.months) ht fun _ value hvalue => ?_
  rw [← heq, Option.some.inj (hhead.symm.trans hvalue)]

/-- The first moment from a moment on, if the schedule has the year of that moment. -/
theorem yearsFrom_least (hyear : 0 ≤ t.year) :
    Least (fun u => s.Candidate u ∧ (true = true → t.toSeconds ≤ u.toSeconds)) Civil.toSeconds
      (level (fun tight year => s.monthsFrom t year tight) s.years t.year.toNat 0 true) := by
  refine level_least (fun u : Civil => u.year.toNat) (fun u => u.Valid ∧ 0 ≤ u.year)
    (fun u hu => ?_) ?_
    (TimeUnit.sorted_of_sublist hs.years) (fun u hu => ?_) (fun _ _ => Nat.zero_le _)
    (fun _ => ⟨ht, hyear⟩) fun tight' year hmem htight' => ?_
  · obtain ⟨year, -, hyear⟩ := hu.year
    exact ⟨hu.valid, by omega⟩
  · rintro u v ⟨hu, huy⟩ ⟨hv, hvy⟩ hlt
    have := hu.month_le
    have := hv.month_pos
    exact Civil.toSeconds_lt_of_month hu hv (by omega)
  · obtain ⟨year, hmem, hyear⟩ := hu.year
    rw [← hyear]
    exact hmem
  · refine (monthsFrom_least hs ht hmem fun h => ?_).congr fun u => ?_
    · have := (htight' h).2
      omega
    · refine and_congr_left fun _ => and_congr_right fun hu => ?_
      obtain ⟨year, -, hyear⟩ := hu.year
      omega

/-- The first moment from a moment on, if the years of the schedule go on from its year. -/
theorem nextInYears_least
    (hrow : ∀ year ∈ s.years, t.year ≤ year → ∃ first ∈ s.years, (first : Int) = t.year) :
    Least (fun u => s.Candidate u ∧ t.toSeconds ≤ u.toSeconds) Civil.toSeconds
      (nextInYears s t .start (s.years.filter fun year : Nat => t.year ≤ year)) := by
  by_cases hyear : ∃ first ∈ s.years, (first : Int) = t.year
  · obtain ⟨first, hfirst, heq⟩ := hyear
    rw [nextInYears_start hs ht hfirst heq]
    refine (yearsFrom_least hs ht (by omega)).congr fun u => and_congr_right fun _ => ?_
    exact ⟨fun h => h rfl, fun h _ => h⟩
  · have hnone : (s.years.filter fun year : Nat => t.year ≤ year) = [] :=
      List.filter_eq_nil_iff.2 fun year hmem hle =>
        hyear (hrow year hmem (of_decide_eq_true hle))
    rw [hnone]
    rintro u ⟨hu, hle⟩
    obtain ⟨year, hmem, hyear'⟩ := hu.year
    have hlt : u.year < t.year := Int.not_le.1 fun hge => hyear (hrow year hmem (by omega))
    have := hu.valid.month_le
    have := ht.month_pos
    have := Civil.toSeconds_lt_of_month hu.valid ht (by omega)
    omega

end

/-- The years of a schedule go on, without a gap, from the year of some second. -/
def YearsGoOn (s : Schedule) (start : Int) : Prop :=
  ∀ last ∈ s.years, ∀ year : Int, (Civil.ofSeconds start).year ≤ year → year ≤ last →
    ∃ first ∈ s.years, (first : Int) = year

/-- From some second on, the search finds the next second of a schedule if there is one. -/
def FindsNext (s : Schedule) (start : Int) : Prop :=
  ∀ n, start ≤ n → Least (fun m => n < m ∧ s.admits (.ofSeconds m) = true) id (s.next? n)

theorem findsNext (hs : s.Proper) {start : Int} (hyears : s.YearsGoOn start) :
    s.FindsNext start := by
  intro n hn
  have hyear := Civil.year_mono (show start ≤ n + 1 by omega)
  refine (nextInYears_least hs (Civil.valid_ofSeconds (n + 1)) fun year hmem hle =>
    hyears year hmem _ hyear hle).map Civil.toSeconds (fun m => ?_) fun _ _ hle => hle
  rw [Civil.toSeconds_ofSeconds]
  constructor
  · rintro ⟨hlt, hadmits⟩
    have hsecond := Civil.toSeconds_ofSeconds m
    exact ⟨Civil.ofSeconds m, ⟨⟨Civil.valid_ofSeconds m, hadmits⟩, by omega⟩, hsecond⟩
  · rintro ⟨u, ⟨hu, hle⟩, rfl⟩
    rw [Civil.ofSeconds_toSeconds hu.valid]
    exact ⟨by omega, hu.admitted⟩

/-- In June 2024, nothing is found of a schedule that has only the first of January 2030. -/
example : (read? "0 0 0 1 1 * 2030").bind (·.next? 1717243200) = none := by decide +kernel

/-- An expression that does not name years has all of them from 1970 on. -/
theorem yearsGoOn_of_all (h : s.years = Cron.years.all) {start : Int} (hstart : 0 ≤ start) :
    s.YearsGoOn start := by
  intro last hlast year hfrom hto
  have hepoch : (Civil.ofSeconds 0).year = 1970 := by decide +kernel
  have hyear := Civil.year_mono hstart
  rw [h] at hlast ⊢
  have hbounds := TimeUnit.bounds_of_sublist (List.Sublist.refl _) hlast
  simp only [Cron.years] at hbounds
  refine ⟨year.toNat, List.mem_range'_1.2 ?_, by omega⟩
  simp only [Cron.years]
  omega

end Schedule

end SignedRecords.Cron
