import Mathlib.Tactic.SplitIfs
import SignedRecords.Time.Calendar

/-!
# The calendar counts every second once

The date and time of a second exist, and their second is the one they were taken from. Later dates
and times have later seconds. So seconds and the dates and times that exist correspond to each
other, and the calendar neither names a second twice nor leaves one out.

Years that begin in March carry this: the days before such a year are a sum without cases, and so
are the days before each of its months.

Main statements: `valid_ofSeconds`, `toSeconds_ofSeconds`, `ofSeconds_toSeconds`, and for the order
`toSeconds_lt_of_month`, `toSeconds_lt_of_day` and `toSeconds_of_date`.
-/

namespace SignedRecords

namespace Civil

/-! ## 1. Days of a date -/

/-- The days from the first of March of the year 0 to the first of March of a year. -/
def marchDays (year : Int) : Int := 365 * year + year / 4 - year / 100 + year / 400

/-- The days from the first of March to the first of a month, which is counted from March. -/
def daysBefore (fromMarch : Nat) : Nat := (153 * fromMarch + 2) / 5

theorem daysInMonth_two (year : Int) : daysInMonth year 2 = if isLeap year then 29 else 28 :=
  if_pos rfl

theorem daysInMonth_pos (year : Int) (month : Nat) : 1 ≤ daysInMonth year month := by
  unfold daysInMonth
  split_ifs <;> decide

/-- A March year ends with February. -/
theorem marchDays_succ (year : Int) :
    marchDays (year + 1) = marchDays year + (daysBefore 11 + daysInMonth (year + 1) 2 : Nat) := by
  rw [daysInMonth_two]
  unfold marchDays daysBefore isLeap
  split <;> rename_i h <;> simp at h <;> omega

/-- From March on, a date lies in the March year of its own year. -/
theorem daysOf_of_two_lt {year : Int} {month day : Nat} (hmonth : 2 < month) (hday : 1 ≤ day) :
    daysOf year month day =
      marchDays year + daysBefore (month - 3) + (day - 1 : Nat) - epochDays := by
  unfold daysOf marchDays daysBefore
  simp only [if_neg (Nat.not_le.2 hmonth), if_pos hmonth, eraDays]
  omega

/-- Before March, a date lies in the March year of the year before. -/
theorem daysOf_of_le_two {year : Int} {month day : Nat} (hmonth : month ≤ 2) (hday : 1 ≤ day) :
    daysOf year month day =
      marchDays (year - 1) + daysBefore (month + 9) + (day - 1 : Nat) - epochDays := by
  unfold daysOf marchDays daysBefore
  simp only [if_pos hmonth, if_neg (Nat.not_lt.2 hmonth), eraDays]
  omega

theorem daysOf_eq_first {year : Int} {month day : Nat} (hday : 1 ≤ day) :
    daysOf year month day = daysOf year month 1 + (day - 1 : Nat) := by
  by_cases hmonth : month ≤ 2
  · rw [daysOf_of_le_two hmonth hday, daysOf_of_le_two hmonth (Nat.le_refl 1)]
    omega
  · have hmarch := Nat.lt_of_not_le hmonth
    rw [daysOf_of_two_lt hmarch hday, daysOf_of_two_lt hmarch (Nat.le_refl 1)]
    omega

/-- The months from March to January do not depend on the year. -/
theorem daysBefore_succ (year : Int) : ∀ fromMarch < 11,
    daysBefore (fromMarch + 1) = daysBefore fromMarch +
      daysInMonth year (if fromMarch < 10 then fromMarch + 3 else fromMarch - 9)
  | 0, _ | 1, _ | 2, _ | 3, _ | 4, _ | 5, _ | 6, _ | 7, _ | 8, _ | 9, _ | 10, _ => rfl

/-! ## 2. The date of a day -/

/-- The days of an era until a day of it, leap days apart. -/
def plainDays (inEra : Nat) : Nat := inEra - inEra / 1460 + inEra / 36524 - inEra / 146096

/-- The days of an era before a year of it. -/
def eraBefore (yearOfEra : Nat) : Nat :=
  365 * yearOfEra + yearOfEra / 4 - yearOfEra / 100 + yearOfEra / 400

theorem plainDays_mono {m n : Nat} (h : m ≤ n) : plainDays m ≤ plainDays n := by
  have hlast : ∀ k, k / 146096 = k / 36524 / 4 := fun k => (Nat.div_div_eq_div_mul k 36524 4).symm
  have hfours : m - m / 1460 ≤ n - n / 1460 := by omega
  have hcenturies : m / 36524 ≤ n / 36524 := Nat.div_le_div_right h
  unfold plainDays
  rw [hlast m, hlast n]
  omega

/-- At the beginning and at the end of each year, whole years have passed. -/
theorem plainDays_eraBefore : ∀ y < 400,
    365 * y ≤ plainDays (eraBefore y) ∧ plainDays (eraBefore (y + 1) - 1) < 365 * (y + 1) := by
  decide +kernel

/-- The days without leap days tell the year of the era. -/
theorem year_of_plainDays {inEra : Nat} (h : inEra < eraDays) :
    plainDays inEra / 365 < 400 ∧ eraBefore (plainDays inEra / 365) ≤ inEra ∧
      inEra < eraBefore (plainDays inEra / 365 + 1) := by
  have hlast : plainDays inEra ≤ plainDays (eraDays - 1) := plainDays_mono (Nat.le_pred_of_lt h)
  have hera : plainDays (eraDays - 1) < 365 * 400 := by decide
  have hyear : plainDays inEra / 365 < 400 := by omega
  refine ⟨hyear, Nat.le_of_not_lt fun hlt => ?_, Nat.lt_of_not_le fun hle => ?_⟩
  · -- a day before the year is at most the last day of the year before
    cases heq : plainDays inEra / 365 with
    | zero =>
      rw [heq] at hlt
      exact Nat.not_lt_zero _ hlt
    | succ y =>
      rw [heq] at hlt hyear
      have hend := (plainDays_eraBefore y (Nat.lt_of_succ_lt hyear)).2
      have hmono := plainDays_mono (Nat.le_pred_of_lt hlt)
      simp only [Nat.pred_eq_sub_one] at hmono
      omega
  · have hnext : plainDays inEra / 365 + 1 < 400 := by
      refine Nat.lt_of_not_le fun hge => ?_
      obtain heq : plainDays inEra / 365 = 399 := by omega
      rw [heq] at hle
      exact Nat.not_le.2 h hle
    have hbegin := (plainDays_eraBefore _ hnext).1
    have hmono := plainDays_mono hle
    omega

theorem marchDays_era (era : Int) (yearOfEra : Nat) :
    marchDays (era * 400 + yearOfEra) = era * eraDays + eraBefore yearOfEra := by
  unfold marchDays eraBefore
  simp only [eraDays]
  omega

/-- A day of a March year has a month and a day of the month in it. -/
theorem month_of_inYear (inYear : Nat) :
    daysBefore ((5 * inYear + 2) / 153) ≤ inYear ∧
      inYear < daysBefore ((5 * inYear + 2) / 153 + 1) := by
  unfold daysBefore
  omega

/-- The date of a day of a March year. -/
def dateInYear (march : Int) (inYear : Nat) : Int × Nat × Nat :=
  let fromMarch := (5 * inYear + 2) / 153
  let month := if fromMarch < 10 then fromMarch + 3 else fromMarch - 9
  (if month ≤ 2 then march + 1 else march, month, inYear - daysBefore fromMarch + 1)

/-- A day lies in a March year, and its date is the one that it has there. -/
theorem dateOf_eq (days : Int) : ∃ (march : Int) (inYear : Nat),
    days = marchDays march + inYear - epochDays ∧
      marchDays march + inYear < marchDays (march + 1) ∧
      dateOf days = dateInYear march inYear := by
  have hera : ((days + epochDays) % eraDays).toNat < eraDays := by
    simp only [eraDays]
    omega
  have hdays : days + epochDays =
      (days + epochDays) / eraDays * eraDays + ((days + epochDays) % eraDays).toNat := by
    simp only [eraDays]
    omega
  have hdate : ∀ {era : Int} {inEra : Nat}, (days + epochDays) / eraDays = era →
      ((days + epochDays) % eraDays).toNat = inEra →
      dateOf days = dateInYear (era * 400 + (plainDays inEra / 365 : Nat))
        (inEra - (365 * (plainDays inEra / 365) + plainDays inEra / 365 / 4 -
          plainDays inEra / 365 / 100)) := by
    rintro _ _ rfl rfl
    rfl
  generalize (days + epochDays) / eraDays = era at hdays hdate
  generalize ((days + epochDays) % eraDays).toNat = inEra at hera hdays hdate
  obtain ⟨hfour, hlow, hhigh⟩ := year_of_plainDays hera
  have hdate := hdate rfl rfl
  generalize plainDays inEra / 365 = yearOfEra at hfour hlow hhigh hdate
  have hmarch := marchDays_era era yearOfEra
  have hnext := marchDays_era era (yearOfEra + 1)
  have hbefore : 365 * yearOfEra + yearOfEra / 4 - yearOfEra / 100 = eraBefore yearOfEra := by
    unfold eraBefore
    omega
  rw [hbefore] at hdate
  refine ⟨_, _, ?_, ?_, hdate⟩
  · omega
  · rw [Int.natCast_succ, ← Int.add_assoc] at hnext
    omega

theorem dateInYear_of_lt {march : Int} {inYear : Nat} (h : (5 * inYear + 2) / 153 < 10) :
    dateInYear march inYear = (march, (5 * inYear + 2) / 153 + 3,
      inYear - daysBefore ((5 * inYear + 2) / 153) + 1) := by
  simp only [dateInYear, if_pos h]
  rw [if_neg (by omega)]

theorem dateInYear_of_ge {march : Int} {inYear : Nat} (h : 10 ≤ (5 * inYear + 2) / 153)
    (hlast : (5 * inYear + 2) / 153 ≤ 11) :
    dateInYear march inYear = (march + 1, (5 * inYear + 2) / 153 - 9,
      inYear - daysBefore ((5 * inYear + 2) / 153) + 1) := by
  simp only [dateInYear, if_neg (Nat.not_lt.2 h)]
  rw [if_pos (by omega)]

/-- What a date has to satisfy. -/
structure ValidDate (year : Int) (month day : Nat) : Prop where
  month_pos : 1 ≤ month
  month_le : month ≤ 12
  day_pos : 1 ≤ day
  day_le : day ≤ daysInMonth year month

/-- The date of a day exists, and its day is that day. -/
theorem date_spec (days : Int) {year : Int} {month day : Nat}
    (hdate : dateOf days = (year, month, day)) :
    ValidDate year month day ∧ daysOf year month day = days := by
  obtain ⟨march, inYear, rfl, hyear, heq⟩ := dateOf_eq days
  rw [heq] at hdate
  obtain ⟨hlow, hhigh⟩ := month_of_inYear inYear
  rw [marchDays_succ] at hyear
  have hfebruary : daysBefore 11 + daysInMonth (march + 1) 2 ≤ 366 := by
    rw [daysInMonth_two]
    split <;> decide
  have hlast : (5 * inYear + 2) / 153 ≤ 11 := by omega
  by_cases hearly : (5 * inYear + 2) / 153 < 10
  · rw [dateInYear_of_lt hearly] at hdate
    cases hdate
    have hnext := daysBefore_succ year ((5 * inYear + 2) / 153) (by omega)
    rw [if_pos hearly] at hnext
    refine ⟨⟨by omega, by omega, by omega, by omega⟩, ?_⟩
    rw [daysOf_of_two_lt (by omega) (by omega), Nat.add_sub_cancel]
    omega
  · rw [dateInYear_of_ge (Nat.le_of_not_lt hearly) hlast] at hdate
    cases hdate
    refine ⟨⟨by omega, by omega, by omega, ?_⟩, ?_⟩
    · rcases Nat.lt_or_eq_of_le hlast with hjanuary | heq
      · have hnext := daysBefore_succ (march + 1) ((5 * inYear + 2) / 153) hjanuary
        rw [if_neg hearly] at hnext
        omega
      · rw [heq] at hlow ⊢
        show inYear - daysBefore 11 + 1 ≤ daysInMonth (march + 1) 2
        omega
    · rw [daysOf_of_le_two (by omega) (by omega), Int.add_sub_cancel,
        Nat.sub_add_cancel (by omega)]
      omega

/-! ## 3. Months in a row -/

/-- The first day of a month. Months are counted from January of the year 0. -/
def firstOf (month : Int) : Int := daysOf (month / 12) ((month % 12).toNat + 1) 1

/-- The number of days of a month, counted in the same way. -/
def lengthOf (month : Int) : Nat := daysInMonth (month / 12) ((month % 12).toNat + 1)

theorem firstOf_of_year {year : Int} {month : Nat} (hpos : 1 ≤ month) (hle : month ≤ 12) :
    firstOf (12 * year + (month - 1 : Nat)) = daysOf year month 1 ∧
      lengthOf (12 * year + (month - 1 : Nat)) = daysInMonth year month := by
  have hyear : (12 * year + (month - 1 : Nat)) / 12 = year := by omega
  have hmonth : ((12 * year + (month - 1 : Nat)) % 12).toNat + 1 = month := by omega
  rw [firstOf, lengthOf, hyear, hmonth]
  exact ⟨rfl, rfl⟩

/-- Within a year, a month ends where the next one begins. -/
theorem daysOf_succ (year : Int) {month : Nat} (hpos : 1 ≤ month) (hlt : month < 12) :
    daysOf year (month + 1) 1 = daysOf year month 1 + daysInMonth year month := by
  by_cases hmarch : 2 < month
  · have hnext := daysBefore_succ year (month - 3) (by omega)
    rw [if_pos (by omega), Nat.sub_add_cancel (by omega)] at hnext
    rw [daysOf_of_two_lt (by omega) (Nat.le_refl 1), daysOf_of_two_lt hmarch (Nat.le_refl 1),
      show month + 1 - 3 = month - 3 + 1 by omega]
    omega
  · rcases (show month = 1 ∨ month = 2 by omega) with rfl | rfl
    · have hnext := daysBefore_succ year 10 (by decide)
      rw [daysOf_of_le_two (by decide) (Nat.le_refl 1),
        daysOf_of_le_two (by decide) (Nat.le_refl 1)]
      simp only [Nat.reduceAdd, Nat.reduceLT, if_false, Nat.reduceSub] at hnext ⊢
      omega
    · have hnext := marchDays_succ (year - 1)
      rw [daysOf_of_two_lt (by decide) (Nat.le_refl 1),
        daysOf_of_le_two (by decide) (Nat.le_refl 1)]
      rw [Int.sub_add_cancel] at hnext
      simp only [Nat.reduceAdd, Nat.reduceSub] at hnext ⊢
      have : daysBefore 0 = 0 := rfl
      omega

/-- A year ends where the next one begins. -/
theorem daysOf_succ_year (year : Int) :
    daysOf (year + 1) 1 1 = daysOf year 12 1 + daysInMonth year 12 := by
  have hnext := daysBefore_succ year 9 (by decide)
  rw [daysOf_of_le_two (by decide) (Nat.le_refl 1), daysOf_of_two_lt (by decide) (Nat.le_refl 1),
    Int.add_sub_cancel]
  simp only [Nat.reduceAdd, Nat.reduceLT, if_true, Nat.reduceSub] at hnext ⊢
  omega

theorem firstOf_succ (month : Int) : firstOf (month + 1) = firstOf month + lengthOf month := by
  unfold firstOf lengthOf
  by_cases hlast : month % 12 = 11
  · rw [show (month + 1) / 12 = month / 12 + 1 by omega,
      show ((month + 1) % 12).toNat + 1 = 1 by omega, hlast]
    exact daysOf_succ_year _
  · rw [show (month + 1) / 12 = month / 12 by omega,
      show ((month + 1) % 12).toNat = (month % 12).toNat + 1 by omega]
    exact daysOf_succ _ (by omega) (by omega)

/-- Months do not overlap. -/
theorem firstOf_add_le {m n : Int} (h : m < n) : firstOf m + lengthOf m ≤ firstOf n := by
  obtain ⟨k, rfl⟩ : ∃ k : Nat, n = m + 1 + k := ⟨(n - m - 1).toNat, by omega⟩
  clear h
  induction k with
  | zero => exact Int.le_of_eq ((Int.add_zero (m + 1)).symm ▸ (firstOf_succ m).symm)
  | succ k ih =>
    rw [Int.natCast_succ, ← Int.add_assoc, firstOf_succ]
    omega

/-! ## 4. Dates and times -/

/-- A date and time that exists. -/
structure Valid (c : Civil) : Prop extends ValidDate c.year c.month c.day where
  hour : c.hour < 24
  minute : c.minute < 60
  second : c.second < 60

/-- The seconds of a day until a time of it. -/
def timeOf (hour minute second : Nat) : Nat := 3600 * hour + 60 * minute + second

variable {c d : Civil}

theorem Valid.timeOf_lt (h : c.Valid) : timeOf c.hour c.minute c.second < daySeconds := by
  obtain ⟨_, hhour, hminute, hsecond⟩ := h
  simp only [timeOf, daySeconds]
  omega

theorem Valid.toSeconds_eq (h : c.Valid) :
    c.toSeconds = (firstOf (12 * c.year + (c.month - 1 : Nat)) + (c.day - 1 : Nat)) * daySeconds +
      timeOf c.hour c.minute c.second := by
  rw [toSeconds, daysOf_eq_first h.day_pos, (firstOf_of_year h.month_pos h.month_le).1]
  rfl

/-- A later month has later seconds. -/
theorem toSeconds_lt_of_month (hc : c.Valid) (hd : d.Valid)
    (h : 12 * c.year + c.month < 12 * d.year + d.month) : c.toSeconds < d.toSeconds := by
  have hpos := hc.month_pos
  have hpos' := hd.month_pos
  have hmonths := firstOf_add_le
    (show 12 * c.year + (c.month - 1 : Nat) < 12 * d.year + (d.month - 1 : Nat) by omega)
  rw [(firstOf_of_year hc.month_pos hc.month_le).2] at hmonths
  have hday := hc.day_le
  have hday' := hc.day_pos
  have htime := hc.timeOf_lt
  rw [hc.toSeconds_eq, hd.toSeconds_eq]
  simp only [daySeconds] at htime ⊢
  omega

/-- Within a month, a later day has later seconds. -/
theorem toSeconds_lt_of_day (hc : c.Valid) (hd : d.Valid) (hyear : c.year = d.year)
    (hmonth : c.month = d.month) (h : c.day < d.day) : c.toSeconds < d.toSeconds := by
  have hday := hc.day_pos
  have htime := hc.timeOf_lt
  rw [hc.toSeconds_eq, hd.toSeconds_eq, hyear, hmonth]
  simp only [daySeconds] at htime ⊢
  omega

/-- Within a day, seconds differ as the times do. -/
theorem toSeconds_of_date (hyear : c.year = d.year) (hmonth : c.month = d.month)
    (hday : c.day = d.day) :
    c.toSeconds + timeOf d.hour d.minute d.second =
      d.toSeconds + timeOf c.hour c.minute c.second := by
  simp only [toSeconds, timeOf, hyear, hmonth, hday]
  omega

theorem toSeconds_le_iff_of_date (hyear : c.year = d.year) (hmonth : c.month = d.month)
    (hday : c.day = d.day) :
    c.toSeconds ≤ d.toSeconds ↔
      (timeOf c.hour c.minute c.second : Int) ≤ timeOf d.hour d.minute d.second := by
  have := toSeconds_of_date hyear hmonth hday
  omega

theorem timeOf_inj (hc : c.Valid) (hd : d.Valid)
    (h : timeOf c.hour c.minute c.second = timeOf d.hour d.minute d.second) :
    c.hour = d.hour ∧ c.minute = d.minute ∧ c.second = d.second := by
  have := hc.minute
  have := hc.second
  have := hd.minute
  have := hd.second
  unfold timeOf at h
  omega

/-- Two dates and times that exist are the same if their seconds are. -/
theorem toSeconds_inj (hc : c.Valid) (hd : d.Valid) (h : c.toSeconds = d.toSeconds) : c = d := by
  have hmonths : 12 * c.year + c.month = 12 * d.year + d.month := by
    rcases Int.lt_trichotomy (12 * c.year + c.month) (12 * d.year + d.month) with hlt | heq | hgt
    · exact absurd h (Int.ne_of_lt (toSeconds_lt_of_month hc hd hlt))
    · exact heq
    · exact absurd h.symm (Int.ne_of_lt (toSeconds_lt_of_month hd hc hgt))
  have hmonth_pos := hc.month_pos
  have hmonth_le := hc.month_le
  have hmonth_pos' := hd.month_pos
  have hmonth_le' := hd.month_le
  have hyear : c.year = d.year := by omega
  have hmonth : c.month = d.month := by omega
  have hday : c.day = d.day := by
    rcases Nat.lt_trichotomy c.day d.day with hlt | heq | hgt
    · exact absurd h (Int.ne_of_lt (toSeconds_lt_of_day hc hd hyear hmonth hlt))
    · exact heq
    · exact absurd h.symm
        (Int.ne_of_lt (toSeconds_lt_of_day hd hc hyear.symm hmonth.symm hgt))
  have htime := toSeconds_of_date hyear hmonth hday
  rw [h] at htime
  obtain ⟨hhour, hminute, hsecond⟩ := timeOf_inj hc hd (by omega)
  cases c
  cases d
  simp only [Civil.mk.injEq]
  exact ⟨hyear, hmonth, hday, hhour, hminute, hsecond⟩

/-- The date and time of a second exist. -/
theorem valid_ofSeconds (seconds : Int) : (ofSeconds seconds).Valid := by
  obtain ⟨hdate, -⟩ := date_spec (seconds / daySeconds) rfl
  refine ⟨hdate, ?_, ?_, ?_⟩
  · show (seconds % daySeconds).toNat / 3600 < 24
    simp only [daySeconds]
    omega
  · exact Nat.mod_lt _ (by decide)
  · exact Nat.mod_lt _ (by decide)

/-- The second of the date and time of a second is that second. -/
theorem toSeconds_ofSeconds (seconds : Int) : (ofSeconds seconds).toSeconds = seconds := by
  obtain ⟨-, hday⟩ := date_spec (seconds / daySeconds) rfl
  show daysOf (ofSeconds seconds).year (ofSeconds seconds).month (ofSeconds seconds).day *
    daySeconds + (3600 * ((seconds % daySeconds).toNat / 3600) +
      60 * ((seconds % daySeconds).toNat / 60 % 60) + (seconds % daySeconds).toNat % 60 : Nat) = _
  rw [show daysOf (ofSeconds seconds).year (ofSeconds seconds).month (ofSeconds seconds).day =
    seconds / daySeconds from hday]
  simp only [daySeconds]
  omega

/-- The date and time of the second of a date and time that exists is that date and time. -/
theorem ofSeconds_toSeconds (h : c.Valid) : ofSeconds c.toSeconds = c :=
  toSeconds_inj (valid_ofSeconds _) h (toSeconds_ofSeconds _)

/-- Years go up with seconds. -/
theorem year_mono {m n : Int} (h : m ≤ n) : (ofSeconds m).year ≤ (ofSeconds n).year := by
  refine Int.not_lt.1 fun hlt => ?_
  have hm := valid_ofSeconds m
  have hn := valid_ofSeconds n
  have hpos := hm.month_pos
  have hle := hn.month_le
  have hback := toSeconds_lt_of_month hn hm (by omega)
  rw [toSeconds_ofSeconds, toSeconds_ofSeconds] at hback
  omega

end Civil

end SignedRecords
