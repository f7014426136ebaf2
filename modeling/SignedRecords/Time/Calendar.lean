/-!
# The calendar

The date and time of a second since 1970 in the Gregorian calendar, without leap seconds and
without time zones. Days are counted in eras of 400 years that begin on the first of March, so
that the leap day is the last day of a year.
-/

namespace SignedRecords

/-- A date and a time of day. -/
structure Civil where
  year : Int
  /-- 1 to 12. -/
  month : Nat
  /-- 1 to 31. -/
  day : Nat
  hour : Nat
  minute : Nat
  second : Nat
  deriving DecidableEq, Repr

namespace Civil

/-- Days in an era. -/
abbrev eraDays : Nat := 146097

/-- Days from the first of March of the year 0 to the first of January 1970. -/
abbrev epochDays : Nat := 719468

/-- Seconds in a day. -/
abbrev daySeconds : Nat := 86400

/-- Whether a year has a leap day. -/
def isLeap (year : Int) : Bool := year % 4 == 0 && (year % 100 != 0 || year % 400 == 0)

/-- The number of days of a month. -/
def daysInMonth (year : Int) (month : Nat) : Nat :=
  if month = 2 then if isLeap year then 29 else 28
  else if month = 4 ∨ month = 6 ∨ month = 9 ∨ month = 11 then 30
  else 31

/-- The date of a day since 1970, as year, month and day. -/
def dateOf (days : Int) : Int × Nat × Nat :=
  let n := days + epochDays
  let era := n / eraDays
  let inEra := (n % eraDays).toNat
  let yearOfEra := (inEra - inEra / 1460 + inEra / 36524 - inEra / 146096) / 365
  let inYear := inEra - (365 * yearOfEra + yearOfEra / 4 - yearOfEra / 100)
  let fromMarch := (5 * inYear + 2) / 153
  let day := inYear - (153 * fromMarch + 2) / 5 + 1
  let month := if fromMarch < 10 then fromMarch + 3 else fromMarch - 9
  let year := era * 400 + yearOfEra
  (if month ≤ 2 then year + 1 else year, month, day)

/-- The days from 1970 to a date. -/
def daysOf (year : Int) (month day : Nat) : Int :=
  let year := if month ≤ 2 then year - 1 else year
  let era := year / 400
  let yearOfEra := (year % 400).toNat
  let fromMarch := if 2 < month then month - 3 else month + 9
  let inYear := (153 * fromMarch + 2) / 5 + day - 1
  let inEra := 365 * yearOfEra + yearOfEra / 4 - yearOfEra / 100 + inYear
  era * eraDays + inEra - epochDays

/-- The day of the week of a day since 1970; 1 is Sunday. -/
def weekdayOf (days : Int) : Nat := ((days + 4) % 7).toNat + 1

/-- The date and time of a second since 1970. -/
def ofSeconds (seconds : Int) : Civil :=
  let (year, month, day) := dateOf (seconds / daySeconds)
  let rest := (seconds % daySeconds).toNat
  ⟨year, month, day, rest / 3600, rest / 60 % 60, rest % 60⟩

/-- The second since 1970 of a date and time. -/
def toSeconds (c : Civil) : Int :=
  daysOf c.year c.month c.day * daySeconds + (3600 * c.hour + 60 * c.minute + c.second : Nat)

/-- The day of the week; 1 is Sunday. -/
def weekday (c : Civil) : Nat := weekdayOf (daysOf c.year c.month c.day)

end Civil

end SignedRecords
