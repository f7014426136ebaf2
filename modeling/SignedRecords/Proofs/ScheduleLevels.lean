import SignedRecords.Cron.Schedule
import SignedRecords.Proofs.Calendars

/-!
# The search of a schedule, unit by unit

The search of a schedule goes from the year down to the second, and for each unit it keeps a mark
of whether its bound is still the one of the starting moment. All these marks come to one: the
search of a unit is tight or loose, and in a tight one only the first value is searched tightly, if
it is the value of the starting moment. The same search is defined here without the marks, from the
seconds up to the months, and the two are equal as long as the marks of the search agree with each
other.

What a tight and a loose search find is said once for all units.

Main statements: `level_least`, `pairs_least` and `nextInYears_eq`.
-/

namespace SignedRecords.Cron.Schedule

variable {α β : Type}

/-! ## 1. Least candidates -/

/-- The result of a search: a candidate with the least key, or nothing if there is no candidate. -/
def Least (p : β → Prop) (key : β → Int) : Option β → Prop
  | some u => p u ∧ ∀ v, p v → key u ≤ key v
  | none => ∀ v, ¬p v

variable {p q : β → Prop} {key : β → Int}

theorem Least.congr {r : Option β} (h : Least p key r) (hpq : ∀ u, p u ↔ q u) : Least q key r := by
  obtain rfl : p = q := funext fun u => propext (hpq u)
  exact h

/-- Candidates with smaller keys come first. -/
theorem Least.or {r r' : Option β} (h : Least p key r) (h' : Least q key r')
    (horder : ∀ u v, p u → q v → key u ≤ key v) : Least (fun u => p u ∨ q u) key (r.or r') := by
  cases r with
  | none => exact h'.congr fun u => (or_iff_right (h u)).symm
  | some u => exact ⟨.inl h.1, fun v hv => hv.elim (h.2 v) (horder u v h.1)⟩

theorem Least.map {p : α → Prop} {key : α → Int} {q : β → Prop} {key' : β → Int} {r : Option α}
    (h : Least p key r) (f : α → β) (hpq : ∀ v, q v ↔ ∃ u, p u ∧ f u = v)
    (hkey : ∀ u v, key u ≤ key v → key' (f u) ≤ key' (f v)) : Least q key' (r.map f) := by
  cases r with
  | none =>
    intro v hv
    obtain ⟨u, hu, -⟩ := (hpq v).1 hv
    exact h u hu
  | some u =>
    refine ⟨(hpq _).2 ⟨u, h.1, rfl⟩, fun v hv => ?_⟩
    obtain ⟨w, hw, rfl⟩ := (hpq v).1 hv
    exact hkey u w (h.2 w hw)

/-! ## 2. The values of one unit -/

/-- What the first of some values leads to. Only the first one is searched tightly. -/
def first (inner : Bool → Nat → Option β) : Bool → List Nat → Option β
  | _, [] => none
  | tight, x :: xs => (inner tight x).or (first inner false xs)

/-- What the values of a unit lead to, in a search that is tight or not. -/
def level (inner : Bool → Nat → Option β) (values : List Nat) (initial lowest : Nat)
    (tight : Bool) : Option β :=
  first inner (tight && values.contains initial) (fromBound values (bound tight initial lowest))

theorem first_some (tight : Bool) (values : List Nat) :
    first (fun _ x => some x) tight values = values.head? := by
  cases values <;> rfl

theorem fromBound_of_mem {values : List Nat} (hsorted : values.Pairwise (· < ·)) {low : Nat}
    (h : low ∈ values) : fromBound values low = low :: values.filter (low < ·) := by
  unfold fromBound
  induction values with
  | nil => cases h
  | cons x xs ih =>
    obtain ⟨hlt, hsorted⟩ := List.pairwise_cons.1 hsorted
    rcases List.mem_cons.1 h with rfl | hmem
    · have habove : xs.filter (low ≤ ·) = xs.filter (low < ·) :=
        List.filter_congr fun y hy => by simp [hlt y hy, Nat.le_of_lt (hlt y hy)]
      simp [habove]
    · have := hlt low hmem
      rw [List.filter_cons_of_neg (by simp; omega), List.filter_cons_of_neg (by simp; omega)]
      exact ih hsorted hmem

theorem fromBound_of_not_mem {values : List Nat} {low : Nat} (h : low ∉ values) :
    fromBound values low = values.filter (low < ·) := by
  refine List.filter_congr fun x hx => ?_
  have hne : low ≠ x := fun heq => h (heq ▸ hx)
  exact decide_eq_decide.2 ⟨fun hle => Nat.lt_of_le_of_ne hle hne, Nat.le_of_lt⟩

section

variable {inner : Bool → Nat → Option β} (part : β → Nat) (range : β → Prop)
  (hrange : ∀ u, p u → range u)
  (horder : ∀ u v, range u → range v → part u < part v → key u < key v)

include hrange horder

theorem first_least {values : List Nat} (hsorted : values.Pairwise (· < ·))
    (hinner : ∀ x ∈ values, Least (fun u => p u ∧ part u = x) key (inner false x)) :
    Least (fun u => p u ∧ part u ∈ values) key (first inner false values) := by
  induction values with
  | nil => exact fun u hu => nomatch hu.2
  | cons x xs ih =>
    obtain ⟨hlt, hsorted⟩ := List.pairwise_cons.1 hsorted
    have hrest := ih hsorted fun y hy => hinner y (List.mem_cons_of_mem x hy)
    refine ((hinner x List.mem_cons_self).or hrest ?_).congr fun u => ?_
    · rintro u v ⟨hu, rfl⟩ ⟨hv, hmem⟩
      exact Int.le_of_lt (horder u v (hrange u hu) (hrange v hv) (hlt _ hmem))
    · rw [List.mem_cons, and_or_left]

/-- A loose search of a unit finds the least of all candidates. -/
theorem level_least_of_loose {values : List Nat} (hsorted : values.Pairwise (· < ·))
    (hmem : ∀ u, p u → part u ∈ values) (initial : Nat) {lowest : Nat}
    (hlowest : ∀ x ∈ values, lowest ≤ x)
    (hinner : ∀ x ∈ values, Least (fun u => p u ∧ part u = x) key (inner false x)) :
    Least p key (level inner values initial lowest false) := by
  have hall : fromBound values lowest = values :=
    List.filter_eq_self.2 fun x hx => decide_eq_true (hlowest x hx)
  show Least p key (first inner false (fromBound values lowest))
  rw [hall]
  exact (first_least part range hrange horder hsorted hinner).congr fun u =>
    and_iff_left_of_imp (hmem u)

/-- A tight search of a unit finds the least candidate from the starting moment on. -/
theorem level_least_of_tight {values : List Nat} (hsorted : values.Pairwise (· < ·))
    (hmem : ∀ u, p u → part u ∈ values) (lowest : Nat) {t : β} (ht : range t)
    (hinner : ∀ x ∈ values, Least (fun u => p u ∧ part u = x) key (inner false x))
    (htight : part t ∈ values → Least (fun u => (p u ∧ part u = part t) ∧ key t ≤ key u) key
      (inner true (part t))) :
    Least (fun u => p u ∧ key t ≤ key u) key (level inner values (part t) lowest true) := by
  have habove : Least (fun u => p u ∧ part u ∈ values.filter (part t < ·)) key
      (first inner false (values.filter (part t < ·))) :=
    first_least part range hrange horder (hsorted.filter _) fun x hx =>
      hinner x (List.mem_filter.1 hx).1
  -- candidates from the starting moment on have its own part or a later one
  have hsplit : ∀ u, (p u ∧ part u = part t) ∧ key t ≤ key u ∨
      p u ∧ part u ∈ values.filter (part t < ·) ↔ p u ∧ key t ≤ key u := by
    intro u
    simp only [List.mem_filter, decide_eq_true_eq]
    constructor
    · rintro (⟨⟨hu, -⟩, hle⟩ | ⟨hu, -, hlt⟩)
      · exact ⟨hu, hle⟩
      · exact ⟨hu, Int.le_of_lt (horder t u ht (hrange u hu) hlt)⟩
    · rintro ⟨hu, hle⟩
      rcases Nat.lt_trichotomy (part u) (part t) with hlt | heq | hgt
      · have := horder u t (hrange u hu) ht hlt
        omega
      · exact .inl ⟨⟨hu, heq⟩, hle⟩
      · exact .inr ⟨hu, hmem u hu, hgt⟩
  show Least _ key (first inner (values.contains (part t)) (fromBound values (part t)))
  by_cases hpart : part t ∈ values
  · rw [List.contains_iff_mem.2 hpart, fromBound_of_mem hsorted hpart]
    refine ((htight hpart).or habove ?_).congr hsplit
    rintro u v ⟨⟨hu, heq⟩, -⟩ ⟨hv, hgt⟩
    have hgt := of_decide_eq_true (List.mem_filter.1 hgt).2
    exact Int.le_of_lt (horder u v (hrange u hu) (hrange v hv) (heq ▸ hgt))
  · rw [Bool.eq_false_iff.2 (mt List.contains_iff_mem.1 hpart), fromBound_of_not_mem hpart]
    refine habove.congr fun u => (or_iff_right ?_).symm.trans (hsplit u)
    rintro ⟨⟨hu, heq⟩, -⟩
    exact hpart (heq ▸ hmem u hu)

/-- What the search of a unit finds, if the search of the smaller units is right. -/
theorem level_least {values : List Nat} (hsorted : values.Pairwise (· < ·))
    (hmem : ∀ u, p u → part u ∈ values) {lowest : Nat} (hlowest : ∀ x ∈ values, lowest ≤ x)
    {t : β} {tight : Bool} (ht : tight = true → range t)
    (hinner : ∀ tight', ∀ x ∈ values, (tight' = true → tight = true ∧ x = part t) →
      Least (fun u => (p u ∧ part u = x) ∧ (tight' = true → key t ≤ key u)) key
        (inner tight' x)) :
    Least (fun u => p u ∧ (tight = true → key t ≤ key u)) key
      (level inner values (part t) lowest tight) := by
  have hloose : ∀ x ∈ values, Least (fun u => p u ∧ part u = x) key (inner false x) :=
    fun x hx => (hinner false x hx fun h => nomatch h).congr fun _ =>
      and_iff_left fun h => nomatch h
  cases tight with
  | false =>
    have hall := level_least_of_loose part range hrange horder hsorted hmem (part t)
      hlowest hloose
    exact hall.congr fun _ => (and_iff_left fun h => nomatch h).symm
  | true =>
    have hfrom := level_least_of_tight part range hrange horder hsorted hmem lowest (ht rfl) hloose
      fun hpart => (hinner true (part t) hpart fun _ => ⟨rfl, rfl⟩).congr fun _ =>
        and_congr_right fun _ => ⟨fun h => h rfl, fun h _ => h⟩
    exact hfrom.congr fun _ => and_congr_right fun _ => ⟨fun h _ => h, fun h => h rfl⟩

end

/-- What a search over pairs finds whose first part decides before the second. -/
theorem pairs_least {p : α → Prop} (key : α → Int) {inner : Bool → Option α} {t : α}
    {values : List Nat} (hsorted : values.Pairwise (· < ·)) {initial lowest : Nat}
    (hlowest : ∀ x ∈ values, lowest ≤ x) {weight : Nat} {tight : Bool}
    (hrange : ∀ u, p u → 0 ≤ key u ∧ key u < weight)
    (ht : tight = true → 0 ≤ key t ∧ key t < weight)
    (hinner : ∀ tight', Least (fun u => p u ∧ (tight' = true → key t ≤ key u)) key
      (inner tight')) :
    Least (fun u : Nat × α => (u.1 ∈ values ∧ p u.2) ∧ (tight = true →
        (weight * initial : Nat) + key t ≤ (weight * u.1 : Nat) + key u.2))
      (fun u => (weight * u.1 : Nat) + key u.2)
      (level (fun tight x => (inner tight).map (x, ·)) values initial lowest tight) := by
  refine level_least Prod.fst (fun u => 0 ≤ key u.2 ∧ key u.2 < weight)
    (fun u hu => hrange u.2 hu.2) ?_ hsorted (fun u hu => hu.1) hlowest (t := (initial, t)) ht ?_
  · intro u v hu hv hlt
    have := Nat.mul_le_mul_left weight (Nat.succ_le_of_lt hlt)
    rw [Nat.mul_succ] at this
    omega
  · intro tight' x hx htight
    refine (hinner tight').map (x, ·) ?_ ?_
    · rintro ⟨y, u⟩
      constructor
      · rintro ⟨⟨⟨-, hu⟩, rfl⟩, hle⟩
        refine ⟨u, ⟨hu, fun h => ?_⟩, rfl⟩
        obtain ⟨-, rfl⟩ := htight h
        exact Int.le_of_add_le_add_left (hle h)
      · rintro ⟨u, ⟨hu, hle⟩, heq⟩
        cases heq
        refine ⟨⟨⟨hx, hu⟩, rfl⟩, fun h => ?_⟩
        obtain ⟨-, rfl⟩ := htight h
        exact Int.add_le_add_left (hle h) _
    · exact fun u v hle => Int.add_le_add_left hle _

/-! ## 3. The search without its marks -/

variable (s : Schedule) (t : Civil)

/-- The first second of a minute. -/
def secondsFrom : Bool → Option Nat := level (fun _ second => some second) s.seconds t.second 0

/-- The first minute and second of an hour. -/
def minutesFrom : Bool → Option (Nat × Nat) :=
  level (fun tight minute => (s.secondsFrom t tight).map (minute, ·)) s.minutes t.minute 0

/-- The first time of a day. -/
def hoursFrom : Bool → Option (Nat × Nat × Nat) :=
  level (fun tight hour => (s.minutesFrom t tight).map (hour, ·)) s.hours t.hour 0

/-- A time of a day, if the day of the week is in the schedule. -/
def onDay (year month day : Nat) : Nat × Nat × Nat → Option Civil
  | (hour, minute, second) =>
    let found : Civil := ⟨year, month, day, hour, minute, second⟩
    if s.weekdays.contains found.weekday then some found else none

/-- The first moment of a month. -/
def daysFrom (year month : Nat) : Bool → Option Civil :=
  level (fun tight day => (s.hoursFrom t tight).bind (s.onDay year month day))
    (s.days.filter (· ≤ Civil.daysInMonth year month)) t.day 1

/-- The first moment of a year. -/
def monthsFrom (year : Nat) : Bool → Option Civil :=
  level (fun tight month => s.daysFrom t year month tight) s.months t.month 1

variable {s t}

/-- The marks below a unit are kept if the value of the starting moment is in the schedule. -/
theorem ite_contains (f : Bool → Fresh) (tight : Bool) (values : List Nat)
    (initial lowest : Nat) :
    (if values.contains (bound tight initial lowest) then f tight else f false) =
      f (tight && values.contains initial) := by
  cases tight with
  | false => exact ite_self _
  | true =>
    show (if values.contains initial then f true else f false) = _
    cases values.contains initial <;> rfl

theorem nextInHour_eq (f : Fresh) (values : List Nat) :
    (nextInHour s t f values).2 =
      first (fun tight minute => (s.secondsFrom t tight).map (minute, ·)) f.second values := by
  induction values generalizing f with
  | nil => rfl
  | cons minute rest ih =>
    have hseconds : s.secondsFrom t f.second =
        (fromBound s.seconds (bound f.second t.second 0)).head? := first_some _ _
    simp only [nextInHour, first, hseconds]
    cases (fromBound s.seconds (bound f.second t.second 0)).head? with
    | some second => rfl
    | none => exact ih _

theorem nextInHour_marks {month day hour tight : Bool} {values : List Nat} {g : Fresh}
    {found : Nat × Nat}
    (h : nextInHour s t ⟨month, day, hour, false, tight⟩ values = (g, some found)) :
    g = ⟨month, day, hour, false, false⟩ := by
  induction values generalizing tight with
  | nil => cases h
  | cons minute rest ih =>
    simp only [nextInHour, Fresh.resetSecond, ite_self] at h
    cases hhead : (fromBound s.seconds (bound tight t.second 0)).head? with
    | some second =>
      rw [hhead] at h
      cases h
      rfl
    | none =>
      rw [hhead] at h
      exact ih h

/-- One hour. -/
theorem nextInDay_cons (month day hour tight : Bool) (value : Nat) (rest : List Nat) :
    nextInDay s t ⟨month, day, hour, tight, tight⟩ (value :: rest) =
      match nextInHour s t ⟨month, day, hour, false, tight && s.minutes.contains t.minute⟩
        (fromBound s.minutes (bound tight t.minute 0)) with
      | (g, some (minute, second)) => (g, some (value, minute, second))
      | (g, none) => nextInDay s t g.resetHour rest := by
  rw [← ite_contains (fun mark => ⟨month, day, hour, false, mark⟩) tight s.minutes t.minute 0]
  rfl

theorem nextInDay_eq (month day hour tight : Bool) (values : List Nat) :
    (nextInDay s t ⟨month, day, hour, tight, tight⟩ values).2 =
      first (fun tight hour => (s.minutesFrom t tight).map (hour, ·)) tight values := by
  induction values generalizing month day hour tight with
  | nil => rfl
  | cons value rest ih =>
    have hminutes : (nextInHour s t
        ⟨month, day, hour, false, tight && s.minutes.contains t.minute⟩
        (fromBound s.minutes (bound tight t.minute 0))).2 = s.minutesFrom t tight :=
      nextInHour_eq _ _
    rw [nextInDay_cons, first, ← hminutes]
    rcases nextInHour s t _ _ with ⟨g, _ | ⟨minute, second⟩⟩
    · exact ih g.month g.day false false
    · rfl

theorem nextInDay_marks {month day tight : Bool} {values : List Nat} {g : Fresh}
    {found : Nat × Nat × Nat}
    (h : nextInDay s t ⟨month, day, false, tight, tight⟩ values = (g, some found)) :
    ∃ month day, g = ⟨month, day, false, false, false⟩ := by
  induction values generalizing month day tight with
  | nil => cases h
  | cons value rest ih =>
    rw [nextInDay_cons] at h
    rcases hhour : nextInHour s t _ _ with ⟨g', _ | ⟨minute, second⟩⟩
    · rw [hhour] at h
      exact @ih g'.month g'.day false h
    · rw [hhour] at h
      cases h
      exact ⟨month, day, nextInHour_marks hhour⟩

/-- One day. -/
theorem nextInMonth_cons (year month' : Nat) (month day tight : Bool) (value : Nat)
    (rest : List Nat) :
    nextInMonth s t year month' ⟨month, day, tight, tight, tight⟩ (value :: rest) =
      match nextInDay s t ⟨month, day, false, tight && s.hours.contains t.hour,
          tight && s.hours.contains t.hour⟩ (fromBound s.hours (bound tight t.hour 0)) with
      | (g, some (hour, minute, second)) =>
        let found : Civil := ⟨year, month', value, hour, minute, second⟩
        if s.weekdays.contains found.weekday then (g, some found)
        else nextInMonth s t year month' g rest
      | (g, none) => nextInMonth s t year month' g.resetDay rest := by
  rw [← ite_contains (fun mark => ⟨month, day, false, mark, mark⟩) tight s.hours t.hour 0]
  rfl

theorem nextInMonth_eq (year month' : Nat) (month day tight : Bool) (values : List Nat) :
    (nextInMonth s t year month' ⟨month, day, tight, tight, tight⟩ values).2 =
      first (fun tight day => (s.hoursFrom t tight).bind (s.onDay year month' day)) tight
        values := by
  induction values generalizing month day tight with
  | nil => rfl
  | cons value rest ih =>
    have hhours : (nextInDay s t ⟨month, day, false, tight && s.hours.contains t.hour,
        tight && s.hours.contains t.hour⟩ (fromBound s.hours (bound tight t.hour 0))).2 =
        s.hoursFrom t tight := nextInDay_eq _ _ _ _ _
    rw [nextInMonth_cons, first, ← hhours]
    rcases hday : nextInDay s t _ _ with ⟨g, _ | ⟨hour, minute, second⟩⟩
    · exact ih g.month false false
    · obtain ⟨month, day, rfl⟩ := nextInDay_marks hday
      simp only [Option.bind_some, onDay]
      split
      · rfl
      · exact ih month day false

/-- One month. -/
theorem nextInYear_cons (year : Nat) (month tight : Bool) (value : Nat) (rest : List Nat) :
    nextInYear s t year ⟨month, tight, tight, tight, tight⟩ (value :: rest) =
      match nextInMonth s t year value ⟨month, false, tight && s.days.contains t.day,
          tight && s.days.contains t.day, tight && s.days.contains t.day⟩
        ((fromBound s.days (min (bound tight t.day 1) (Civil.daysInMonth year value))).filter
          (· ≤ Civil.daysInMonth year value)) with
      | (g, some found) => (g, some found)
      | (g, none) => nextInYear s t year g.resetMonth rest := by
  rw [← ite_contains (fun mark => ⟨month, false, mark, mark, mark⟩) tight s.days t.day 1]
  rfl

/-- The days of a month are found alike if its last day is cut off before. -/
theorem fromBound_days {days : List Nat} {low last : Nat} (h : low ≤ last) :
    (fromBound days (min low last)).filter (· ≤ last) = fromBound (days.filter (· ≤ last)) low := by
  rw [Nat.min_eq_left h, fromBound, fromBound, List.filter_filter, List.filter_filter]
  exact List.filter_congr fun _ _ => Bool.and_comm _ _

theorem nextInYear_eq {year : Nat} (month : Bool) {tight : Bool} {values : List Nat}
    (hday : tight = true → ∀ value ∈ values.head?, t.day ≤ Civil.daysInMonth year value) :
    (nextInYear s t year ⟨month, tight, tight, tight, tight⟩ values).2 =
      first (fun tight month => s.daysFrom t year month tight) tight values := by
  induction values generalizing month tight with
  | nil => rfl
  | cons value rest ih =>
    have hlow : bound tight t.day 1 ≤ Civil.daysInMonth year value := by
      cases tight with
      | true => exact hday rfl value rfl
      | false => exact Civil.daysInMonth_pos year value
    have hmark : (tight && s.days.contains t.day) =
        (tight && (s.days.filter (· ≤ Civil.daysInMonth year value)).contains t.day) := by
      cases tight with
      | true =>
        rw [Bool.true_and, Bool.true_and, Bool.eq_iff_iff, List.contains_iff_mem,
          List.contains_iff_mem, List.mem_filter]
        exact (and_iff_left (decide_eq_true hlow)).symm
      | false => rfl
    have hdays : (nextInMonth s t year value ⟨month, false, tight && s.days.contains t.day,
        tight && s.days.contains t.day, tight && s.days.contains t.day⟩
        ((fromBound s.days (min (bound tight t.day 1) (Civil.daysInMonth year value))).filter
          (· ≤ Civil.daysInMonth year value))).2 = s.daysFrom t year value tight := by
      rw [nextInMonth_eq, fromBound_days hlow, hmark]
      rfl
    rw [nextInYear_cons, first, ← hdays]
    rcases nextInMonth s t _ _ _ _ with ⟨g, _ | found⟩
    · exact ih false fun h => nomatch h
    · rfl

theorem nextInYear_marks {year : Nat} {tight : Bool} {values : List Nat} {g : Fresh}
    (hnil : values = [] → tight = false)
    (h : nextInYear s t year ⟨false, tight, tight, tight, tight⟩ values = (g, none)) :
    g = ⟨false, false, false, false, false⟩ := by
  induction values generalizing tight with
  | nil =>
    cases hnil rfl
    cases h
    rfl
  | cons value rest ih =>
    rw [nextInYear_cons] at h
    rcases hmonth : nextInMonth s t _ _ _ _ with ⟨g', _ | found⟩
    · rw [hmonth] at h
      exact ih (fun _ => rfl) h
    · rw [hmonth] at h
      cases h

/-- One year. -/
theorem nextInYears_cons (tight : Bool) (value : Nat) (rest : List Nat) :
    nextInYears s t ⟨tight, tight, tight, tight, tight⟩ (value :: rest) =
      match nextInYear s t value ⟨false, tight && s.months.contains t.month,
          tight && s.months.contains t.month, tight && s.months.contains t.month,
          tight && s.months.contains t.month⟩ (fromBound s.months (bound tight t.month 1)) with
      | (_, some found) => some found
      | (g, none) => nextInYears s t g rest := by
  rw [← ite_contains (fun mark => ⟨false, mark, mark, mark, mark⟩) tight s.months t.month 1]
  rfl

theorem nextInYears_eq (hmonths : s.months.Pairwise (· < ·)) (ht : t.Valid) {tight : Bool}
    {values : List Nat} (hyear : tight = true → ∀ value ∈ values.head?, (value : Int) = t.year) :
    nextInYears s t ⟨tight, tight, tight, tight, tight⟩ values =
      first (fun tight year => s.monthsFrom t year tight) tight values := by
  induction values generalizing tight with
  | nil => rfl
  | cons value rest ih =>
    -- a tight search of the months begins with the starting month
    have hhead : (tight && s.months.contains t.month) = true →
        tight = true ∧ (fromBound s.months (bound tight t.month 1)).head? = some t.month := by
      intro h
      obtain ⟨rfl, hmem⟩ := Bool.and_eq_true_iff.1 h
      refine ⟨rfl, ?_⟩
      rw [show bound true t.month 1 = t.month from rfl,
        fromBound_of_mem hmonths (List.contains_iff_mem.1 hmem)]
      rfl
    have hmonth : (nextInYear s t value ⟨false, tight && s.months.contains t.month,
        tight && s.months.contains t.month, tight && s.months.contains t.month,
        tight && s.months.contains t.month⟩ (fromBound s.months (bound tight t.month 1))).2 =
        s.monthsFrom t value tight := by
      refine nextInYear_eq false fun h month hmem => ?_
      obtain ⟨htight, hfirst⟩ := hhead h
      obtain rfl : t.month = month := Option.some.inj (hfirst.symm.trans hmem)
      rw [hyear htight value rfl]
      exact ht.day_le
    rw [nextInYears_cons, first, ← hmonth]
    rcases hres : nextInYear s t _ _ _ with ⟨g, _ | found⟩
    · have hnil : fromBound s.months (bound tight t.month 1) = [] →
          (tight && s.months.contains t.month) = false := fun hnil =>
        Bool.eq_false_iff.2 fun h => by rw [hnil] at hhead; cases (hhead h).2
      rw [nextInYear_marks hnil hres]
      exact ih fun h => nomatch h
    · rfl

end SignedRecords.Cron.Schedule
