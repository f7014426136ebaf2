import SignedRecords.Cron.Grammar
import SignedRecords.Time.Calendar

/-!
# Schedules

The moments that an expression names: those whose second, minute, hour, day of the month, month,
day of the week and year are all in its fields. A schedule is written with six fields or seven, the
year last, or as one of five shorthands.

`Schedule.next?` searches for the next moment from the year down to the second. The bound of each
unit is the one of the starting moment until the search has gone past it once; the bound of the
month is also used in the first year of the schedule when that year lies ahead.
-/

namespace SignedRecords.Cron

/-- A schedule: the values of each unit, in increasing order. -/
structure Schedule where
  seconds : List Nat
  minutes : List Nat
  hours : List Nat
  days : List Nat
  months : List Nat
  weekdays : List Nat
  years : List Nat
  deriving DecidableEq

namespace Schedule

/-! ## 1. Reading -/

/-- The units of a schedule without its year, in their order. -/
def units : List TimeUnit :=
  [Cron.seconds, Cron.minutes, Cron.hours, Cron.daysOfMonth, Cron.months, Cron.daysOfWeek]

/-- The schedule of six or seven lists of values. -/
def ofFields? : List (List Nat) → Option Schedule
  | [s, i, h, d, m, w] => some ⟨s, i, h, d, m, w, Cron.years.all⟩
  | [s, i, h, d, m, w, y] => some ⟨s, i, h, d, m, w, y⟩
  | _ => none

/-- The schedules that have a name. -/
def shorthands : List (String × Schedule) :=
  [("@yearly", ⟨[0], [0], [0], [1], [1], Cron.daysOfWeek.all, Cron.years.all⟩),
   ("@monthly", ⟨[0], [0], [0], [1], Cron.months.all, Cron.daysOfWeek.all, Cron.years.all⟩),
   ("@weekly",
    ⟨[0], [0], [0], Cron.daysOfMonth.all, Cron.months.all, [1], Cron.years.all⟩),
   ("@daily",
    ⟨[0], [0], [0], Cron.daysOfMonth.all, Cron.months.all, Cron.daysOfWeek.all,
     Cron.years.all⟩),
   ("@hourly",
    ⟨[0], [0], Cron.hours.all, Cron.daysOfMonth.all, Cron.months.all, Cron.daysOfWeek.all,
     Cron.years.all⟩)]

/-- The characters without white space at both ends. -/
def stripped (cs : List Char) : List Char :=
  ((cs.dropWhile isWhite).reverse.dropWhile isWhite).reverse

/-- The schedule of a shorthand. -/
def shorthand? (cs : List Char) : Option Schedule :=
  (shorthands.find? fun entry => entry.1.toList == stripped cs).map (·.2)

/-- The schedule of a text that consists of some fields and nothing else. -/
def ofUnits? (units : List TimeUnit) (cs : List Char) : Option (List (List Nat)) :=
  match fields units cs with
  | some (values, []) => some values
  | _ => none

/-- The schedule of six fields, or of seven. -/
def longhand? (cs : List Char) : Option Schedule :=
  ((ofUnits? units cs).or (ofUnits? (units ++ [Cron.years]) cs)).bind ofFields?

/-- The schedule of a text. -/
def read? (text : String) : Option Schedule :=
  (shorthand? text.toList).or (longhand? text.toList)

/-! ## 2. Moments -/

/-- Whether a moment belongs to a schedule. -/
def admits (s : Schedule) (c : Civil) : Bool :=
  s.seconds.contains c.second && s.minutes.contains c.minute && s.hours.contains c.hour &&
    s.days.contains c.day && s.months.contains c.month && s.weekdays.contains c.weekday &&
    s.years.any fun y => (y : Int) == c.year

/-! ## 3. The search -/

/-- For each unit below the year, whether its bound is still the one of the starting moment. -/
structure Fresh where
  month : Bool
  day : Bool
  hour : Bool
  minute : Bool
  second : Bool

namespace Fresh

/-- At the starting moment. -/
def start : Fresh := ⟨true, true, true, true, true⟩

/-- Gives up the bound of the second. -/
def resetSecond (f : Fresh) : Fresh := { f with second := false }

/-- Gives up the bound of the minute and of all smaller units. -/
def resetMinute (f : Fresh) : Fresh := { f.resetSecond with minute := false }

/-- Gives up the bound of the hour and of all smaller units. -/
def resetHour (f : Fresh) : Fresh := { f.resetMinute with hour := false }

/-- Gives up the bound of the day and of all smaller units. -/
def resetDay (f : Fresh) : Fresh := { f.resetHour with day := false }

/-- Gives up the bound of the month and of all smaller units. -/
def resetMonth (f : Fresh) : Fresh := { f.resetDay with month := false }

end Fresh

/-- The bound of a unit: that of the starting moment, or the lowest value. -/
def bound (fresh : Bool) (initial lowest : Nat) : Nat := if fresh then initial else lowest

/-- The values that are not below a bound. -/
def fromBound (values : List Nat) (low : Nat) : List Nat := values.filter (low ≤ ·)

/-- The first minute and second among some minutes. -/
def nextInHour (s : Schedule) (t : Civil) (f : Fresh) : List Nat → Fresh × Option (Nat × Nat)
  | [] => (f, none)
  | minute :: rest =>
    let low := bound f.second t.second 0
    let g := { f with second := false }
    let g := if s.seconds.contains low then g else g.resetSecond
    match (fromBound s.seconds low).head? with
    | some second => (g, some (minute, second))
    | none => nextInHour s t g.resetMinute rest

/-- The first hour, minute and second among some hours. -/
def nextInDay (s : Schedule) (t : Civil) (f : Fresh) :
    List Nat → Fresh × Option (Nat × Nat × Nat)
  | [] => (f, none)
  | hour :: rest =>
    let low := bound f.minute t.minute 0
    let g := { f with minute := false }
    let g := if s.minutes.contains low then g else g.resetMinute
    match nextInHour s t g (fromBound s.minutes low) with
    | (g, some (minute, second)) => (g, some (hour, minute, second))
    | (g, none) => nextInDay s t g.resetHour rest

/-- The first moment among some days of a month; a day whose day of the week is not in the schedule
    is passed over once a time of day has been found for it. -/
def nextInMonth (s : Schedule) (t : Civil) (year month : Nat) (f : Fresh) :
    List Nat → Fresh × Option Civil
  | [] => (f, none)
  | day :: rest =>
    let low := bound f.hour t.hour 0
    let g := { f with hour := false }
    let g := if s.hours.contains low then g else g.resetHour
    match nextInDay s t g (fromBound s.hours low) with
    | (g, some (hour, minute, second)) =>
      let found : Civil := ⟨year, month, day, hour, minute, second⟩
      if s.weekdays.contains found.weekday then (g, some found)
      else nextInMonth s t year month g rest
    | (g, none) => nextInMonth s t year month g.resetDay rest

/-- The first moment among some months of a year. -/
def nextInYear (s : Schedule) (t : Civil) (year : Nat) (f : Fresh) :
    List Nat → Fresh × Option Civil
  | [] => (f, none)
  | month :: rest =>
    let low := bound f.day t.day 1
    let g := { f with day := false }
    let g := if s.days.contains low then g else g.resetDay
    let last := Civil.daysInMonth year month
    let days := (fromBound s.days (min low last)).filter (· ≤ last)
    match nextInMonth s t year month g days with
    | (g, some found) => (g, some found)
    | (g, none) => nextInYear s t year g.resetMonth rest

/-- The first moment among some years. -/
def nextInYears (s : Schedule) (t : Civil) (f : Fresh) : List Nat → Option Civil
  | [] => none
  | year :: rest =>
    let low := bound f.month t.month 1
    let g := { f with month := false }
    let g := if s.months.contains low then g else g.resetMonth
    match nextInYear s t year g (fromBound s.months low) with
    | (_, some found) => some found
    | (g, none) => nextInYears s t g rest

/-- The next moment after a second since 1970, as a second since 1970. -/
def next? (s : Schedule) (after : Int) : Option Int :=
  let t := Civil.ofSeconds (after + 1)
  (nextInYears s t .start (s.years.filter fun y => t.year ≤ y)).map Civil.toSeconds

/-- The next moments after a second since 1970, at most `count` of them. -/
def upcoming (s : Schedule) (after : Int) : Nat → List Int
  | 0 => []
  | count + 1 =>
    match s.next? after with
    | some next => next :: s.upcoming next count
    | none => []

end Schedule

end SignedRecords.Cron
