import SignedRecords.Cron.Expression
import SignedRecords.Proofs.CronFields
import SignedRecords.Proofs.ScheduleSearch

/-!
# Fields and words of a cron expression

An expression gets a second of zero in front when it has five words, and the grammar then reads what
fields it has. The words are as many as the fields when white space stands between all fields and
nowhere else. Otherwise a text of five words can have six fields, which are then read one unit up,
and a text of five fields can have other than five words, and is then refused.

Main statement: `fields_told_by_words`.
-/

namespace SignedRecords

/-! ## 1. Words -/

namespace Blank

section

variable {p : Char → Bool} (hp : ∀ c, p c = true → isBlank c = true)

include hp

theorem wordsFrom_dropWhile (cs : List Char) :
    wordsFrom false (cs.dropWhile p) = wordsFrom false cs := by
  induction cs with
  | nil => rfl
  | cons c cs ih =>
    by_cases hc : p c = true
    · rw [List.dropWhile_cons_of_pos hc, ih, wordsFrom, if_pos (hp c hc)]
    · rw [List.dropWhile_cons_of_neg hc]

theorem wordsFrom_append_blanks (cs : List Char) {bs : List Char} (hbs : ∀ c ∈ bs, p c = true)
    (inWord : Bool) : wordsFrom inWord (cs ++ bs) = wordsFrom inWord cs := by
  induction cs generalizing inWord with
  | nil =>
    induction bs generalizing inWord with
    | nil => rfl
    | cons c bs ih =>
      have hblank : isBlank c = true := hp c (hbs c List.mem_cons_self)
      simpa [wordsFrom, hblank] using ih (fun d hd => hbs d (.tail _ hd)) false
  | cons c cs ih => simp only [List.cons_append, wordsFrom, ih]

end

theorem dropWhile_eq_append (p : Char → Bool) (cs : List Char) :
    ∃ bs, (∀ c ∈ bs, p c = true) ∧
      cs.dropWhile p = ((cs.dropWhile p).reverse.dropWhile p).reverse ++ bs := by
  refine ⟨((cs.dropWhile p).reverse.takeWhile p).reverse, fun c hc => ?_, ?_⟩
  · exact List.all_eq_true.1 List.all_takeWhile c (List.mem_reverse.1 hc)
  · rw [← List.reverse_append, List.takeWhile_append_dropWhile, List.reverse_reverse]

/-- Cutting blanks off at both ends leaves the words. -/
theorem wordsFrom_cut {p : Char → Bool} (hp : ∀ c, p c = true → isBlank c = true)
    (cs : List Char) :
    wordsFrom false ((cs.dropWhile p).reverse.dropWhile p).reverse = wordsFrom false cs := by
  obtain ⟨bs, hbs, heq⟩ := dropWhile_eq_append p cs
  rw [← wordsFrom_dropWhile hp cs, heq, wordsFrom_append_blanks hp _ hbs, ← heq]

/-- What is left after cutting begins with no blank. -/
theorem head?_trimmed {cs : List Char} {c : Char} (h : (trimmed cs).head? = some c) :
    isBlank c = false := by
  obtain ⟨bs, -, heq⟩ := dropWhile_eq_append isBlank cs
  obtain ⟨tail, htail⟩ : ∃ tail, trimmed cs = c :: tail := ⟨_, List.eq_cons_of_mem_head? h⟩
  have := List.head?_dropWhile_not isBlank cs
  rw [heq, ← trimmed, htail] at this
  simpa using this

end Blank

namespace Cron

open Reader
open Blank (wordCount trimmed trim isBlank)

theorem isBlank_of_isWhite {c : Char} (h : isWhite c = true) : isBlank c = true := by
  simp only [isWhite, Bool.or_eq_true, beq_iff_eq, or_assoc] at h
  rcases h with rfl | rfl | rfl | rfl <;> rfl

theorem dropWhile_trimmed (cs : List Char) : (trimmed cs).dropWhile isWhite = trimmed cs := by
  rcases h : trimmed cs with _ | ⟨c, rest⟩
  · rfl
  · have hblank := Blank.head?_trimmed (c := c) (by rw [h, List.head?_cons])
    refine List.dropWhile_cons_of_neg fun hwhite => ?_
    rw [isBlank_of_isWhite hwhite] at hblank
    cases hblank

/-- A shorthand is one word. -/
theorem wordCount_of_shorthand {e : String} {s : Schedule}
    (h : Schedule.shorthand? (trimmed e.toList) = some s) : wordCount e = 1 := by
  obtain ⟨entry, hfound, -⟩ := Option.map_eq_some_iff.1 h
  have heq : entry.1.toList = Schedule.stripped (trimmed e.toList) := by
    simpa using List.find?_some hfound
  have hone : ∀ entry ∈ Schedule.shorthands, Blank.wordsFrom false entry.1.toList = 1 := by
    decide +kernel
  calc wordCount e
    _ = Blank.wordsFrom false (trimmed e.toList) :=
      (Blank.wordsFrom_cut (fun _ hc => hc) e.toList).symm
    _ = Blank.wordsFrom false (Schedule.stripped (trimmed e.toList)) :=
      (Blank.wordsFrom_cut (fun _ => isBlank_of_isWhite) (trimmed e.toList)).symm
    _ = 1 := by rw [← heq, hone entry (List.mem_of_find?_eq_some hfound)]

/-! ## 2. A zero in front -/

section

variable {us : List TimeUnit} {cs : List Char}

/-- In front of a text that goes on with nothing, `0` and a blank are a field of their own. -/
theorem field_zero (hjoin : ∀ c, cs.head? = some c → c ∉ foreignSigns)
    (hwhite : cs.dropWhile isWhite = cs) :
    field seconds ('0' :: ' ' :: cs) = some ([.plain (.point 0)], cs) := by
  have hnumber : number ('0' :: ' ' :: cs) = some (0, cs) := by
    simp [number, spaced, run, isWhite, hwhite, numberOf]
  have hsign (c : Char) (hc : c ∈ foreignSigns) : exactly c cs = none := by
    obtain _ | ⟨d, cs⟩ := cs
    · rfl
    · refine if_neg fun heq => ?_
      rw [heq] at hc
      exact hjoin d rfl hc
  have hcomma := hsign ',' (by decide)
  have hdash := hsign '-' (by decide)
  have hslash := hsign '/' (by decide)
  have hstar : everything seconds ('0' :: ' ' :: cs) = none := rfl
  have helement : element seconds ('0' :: ' ' :: cs) = some (.plain (.point 0), cs) := by
    simp only [element, span, either, both, map, dashed, hstar, hnumber, hdash, hslash]
  have hdrop : ('0' :: ' ' :: cs).dropWhile isWhite = '0' :: ' ' :: cs := rfl
  refine field_eq_some.2 ⟨.plain (.point 0), [], cs, cs, ?_, ?_, rfl, hwhite.symm⟩
  · rw [hdrop, helement]
  · rw [hdrop]
    simp only [List.length_cons, moreElements, both, hcomma]

theorem ofUnits?_zero (hjoin : ∀ c, cs.head? = some c → c ∉ foreignSigns)
    (hwhite : cs.dropWhile isWhite = cs) (us : List TimeUnit) :
    Schedule.ofUnits? (seconds :: us) ('0' :: ' ' :: cs) =
      (Schedule.ofUnits? us cs).map ([0] :: ·) := by
  have hvalues : fieldValues? seconds [.plain (.point 0)] = some [0] := by decide +kernel
  unfold Schedule.ofUnits?
  simp only [fields, field_zero hjoin hwhite, hvalues, map]
  rcases fields us cs with _ | ⟨vs, _ | ⟨c, rest⟩⟩ <;> rfl

namespace Schedule

/-- No shorthand begins with another character than its sign. -/
theorem shorthand?_of_head {c : Char} (hc : c ≠ '@') (hwhite : isWhite c = false)
    (cs : List Char) : shorthand? (c :: cs) = none := by
  have hprefix : stripped (c :: cs) <+: c :: cs := by
    rw [stripped, List.dropWhile_cons_of_neg (by simp [hwhite])]
    exact List.reverse_suffix.1 (by simpa using List.dropWhile_suffix isWhite)
  have hentry : ∀ entry ∈ shorthands, entry.1.toList.head? = some '@' := by decide +kernel
  refine Option.map_eq_none_iff.2 (List.find?_eq_none.2 fun entry hmem heq => ?_)
  have hhead := hentry entry hmem
  rw [eq_of_beq heq] at hhead
  obtain ⟨tail, htail⟩ := hprefix
  rcases hs : stripped (c :: cs) with _ | ⟨d, ds⟩
  · rw [hs] at hhead
    cases hhead
  · rw [hs] at hhead htail
    cases htail
    exact hc (Option.some.inj hhead)

/-- The schedule of five fields, from the minute to the day of the week: the first second of every
    minute that they name. -/
def fiveFields? (cs : List Char) : Option Schedule :=
  (ofUnits? units.tail cs).bind fun values => ofFields? ([0] :: values)

/-- The schedule of six fields that are taken for those from the minute to the year. -/
def fromMinute? (cs : List Char) : Option Schedule :=
  (ofUnits? (units.tail ++ [Cron.years]) cs).bind fun values => ofFields? ([0] :: values)

/-- A text after a zero is read as five fields, or as these and a year. -/
theorem longhand?_zero (hjoin : ∀ c, cs.head? = some c → c ∉ foreignSigns)
    (hwhite : cs.dropWhile isWhite = cs) :
    longhand? ('0' :: ' ' :: cs) =
      ((ofUnits? units.tail cs).or (ofUnits? (units.tail ++ [Cron.years]) cs)).bind
        fun values => ofFields? ([0] :: values) := by
  have hsix : ofUnits? units ('0' :: ' ' :: cs) = (ofUnits? units.tail cs).map ([0] :: ·) :=
    ofUnits?_zero hjoin hwhite units.tail
  have hseven : ofUnits? (units ++ [Cron.years]) ('0' :: ' ' :: cs) =
      (ofUnits? (units.tail ++ [Cron.years]) cs).map ([0] :: ·) :=
    ofUnits?_zero hjoin hwhite (units.tail ++ [Cron.years])
  rw [longhand?, hsix, hseven, ← Option.map_or, Option.bind_map]
  rfl

end Schedule

end

namespace Schedule

variable {cs : List Char} {s : Schedule}

/-- The schedule of six fields is never that of the same fields taken one unit up: the second
    value of all years would go down with the fields to the second. -/
theorem ofFields?_ne {values values' : List (List Nat)} {fs : List Field}
    (hvalues : Values units fs values) (hvalues' : Values (units.tail ++ [Cron.years]) fs values')
    (h : ofFields? values = some s) : ofFields? ([0] :: values') ≠ some s := by
  obtain _ | ⟨h₁, _ | ⟨h₂, _ | ⟨h₃, _ | ⟨h₄, _ | ⟨h₅, _ | ⟨h₆, _ | _⟩⟩⟩⟩⟩⟩ := hvalues
  obtain _ | ⟨h₁', _ | ⟨h₂', _ | ⟨h₃', _ | ⟨h₄', _ | ⟨h₅', _ | ⟨h₆', _ | _⟩⟩⟩⟩⟩⟩ := hvalues'
  cases h
  intro heq
  cases heq
  have hyears : 1971 ∈ Cron.years.all := by decide +kernel
  have hsecond := Carries.seconds_minutes.field h₁ h₁' <| Carries.minutes_hours.field h₂ h₂' <|
    Carries.hours_days.field h₃ h₃' <| Carries.days_months.field h₄ h₄' <|
    Carries.months_weekdays.field h₅ h₅' <| Carries.weekdays_years.field h₆ h₆' hyears
  cases hsecond with
  | tail _ h => cases h

/-- Taken for those from the minute to the year, the fields of a schedule make another one. -/
theorem fromMinute?_ne (h : longhand? cs = some s) : fromMinute? cs ≠ some s := by
  intro h'
  obtain ⟨values, hread, hfields⟩ := Option.bind_eq_some_iff.1 h
  obtain ⟨values', hread', hfields'⟩ := Option.bind_eq_some_iff.1 h'
  rcases Option.or_eq_some_iff.1 hread with hsix | ⟨-, hseven⟩
  · obtain ⟨fs, hvalues, hvalues'⟩ :=
      fields_unique (ofUnits?_eq_some.1 hsix) (ofUnits?_eq_some.1 hread')
    exact ofFields?_ne hvalues hvalues' hfields hfields'
  · cases length_unique hseven hread'

end Schedule

/-! ## 3. Expressions -/

/-- A text that is read to its end is not joined to what stands before it. -/
theorem head?_of_units {us : List TimeUnit} {cs : List Char} {vs : List (List Nat)}
    (h : Schedule.ofUnits? us cs = some vs) : ∀ c, cs.head? = some c → c ∉ foreignSigns :=
  fun _ hc => head?_of_fields (ofUnits?_eq_some.1 h) hc

variable {e : String} {s : Schedule}

theorem parse?_of_ne (h : wordCount e ≠ 5) : parse? e = Schedule.read? (trim e) := by
  rw [parse?, normalized, if_neg h]

/-- A text after a zero that does not go on with it has five fields or six. -/
theorem read?_zero (hjoin : ∀ c, (trimmed e.toList).head? = some c → c ∉ foreignSigns) :
    Schedule.read? ("0 " ++ trim e) =
      ((Schedule.ofUnits? Schedule.units.tail (trimmed e.toList)).or
        (Schedule.ofUnits? (Schedule.units.tail ++ [years]) (trimmed e.toList))).bind
        fun values => Schedule.ofFields? ([0] :: values) := by
  have htext : ("0 " ++ trim e).toList = '0' :: ' ' :: trimmed e.toList := by
    simp only [String.toList_append, trim, String.toList_ofList]
    rfl
  rw [Schedule.read?, htext, Schedule.shorthand?_of_head (by decide) (by decide), Option.none_or,
    Schedule.longhand?_zero hjoin (dropWhile_trimmed _)]

theorem parse?_of_five (h : wordCount e = 5) : parse? e = Schedule.read? ("0 " ++ trim e) := by
  rw [parse?, normalized, if_pos h]

namespace Schedule

/-- Five fields after a zero are read as the schedule of five fields. -/
theorem read?_of_fiveFields (h : fiveFields? (trimmed e.toList) = some s) :
    read? ("0 " ++ trim e) = some s := by
  obtain ⟨values, hread, hfields⟩ := Option.bind_eq_some_iff.1 h
  rw [read?_zero (head?_of_units hread), hread]
  exact hfields

/-- A text of fields is no shorthand. -/
theorem shorthand?_of_units {us : List TimeUnit} {vs : List (List Nat)}
    (h : ofUnits? us (trimmed e.toList) = some vs) : shorthand? (trimmed e.toList) = none := by
  rcases ht : trimmed e.toList with _ | ⟨c, cs⟩
  · decide +kernel
  · have hhead : (trimmed e.toList).head? = some c := by rw [ht, List.head?_cons]
    have hc := head?_of_units h c hhead
    refine shorthand?_of_head (fun heq => hc (by rw [heq]; decide)) ?_ cs
    rcases hwhite : isWhite c with _ | _
    · rfl
    · rw [← Blank.head?_trimmed hhead, isBlank_of_isWhite hwhite]

theorem read?_trim : read? (trim e) =
    (shorthand? (trimmed e.toList)).or (longhand? (trimmed e.toList)) := by
  rw [read?, trim, String.toList_ofList]

theorem units_of_longhand {cs : List Char} (h : longhand? cs = some s) :
    ∃ us vs, 5 < us.length ∧ ofUnits? us cs = some vs := by
  obtain ⟨values, hread, -⟩ := Option.bind_eq_some_iff.1 h
  rcases Option.or_eq_some_iff.1 hread with hsix | ⟨-, hseven⟩
  · exact ⟨units, values, by decide, hsix⟩
  · exact ⟨units ++ [Cron.years], values, by decide, hseven⟩

theorem not_longhand {cs : List Char} {vs : List (List Nat)}
    (h : ofUnits? units.tail cs = some vs) : longhand? cs = none := by
  refine Option.eq_none_iff_forall_ne_some.2 fun s hs => ?_
  obtain ⟨us, vs', hlength, hread⟩ := units_of_longhand hs
  have heq : 5 = us.length := length_unique h hread
  omega

/-- A text of five fields is no schedule as it stands. -/
theorem read?_trim_of_fiveFields (h : fiveFields? (trimmed e.toList) = some s) :
    read? (trim e) = none := by
  obtain ⟨values, hread, -⟩ := Option.bind_eq_some_iff.1 h
  rw [read?_trim, shorthand?_of_units hread, not_longhand hread, Option.none_or]

/-- Six or seven fields after a zero are taken for those from the minute to the year. -/
theorem read?_of_longhand (h : longhand? (trimmed e.toList) = some s) :
    read? ("0 " ++ trim e) = fromMinute? (trimmed e.toList) := by
  have hfive : ofUnits? units.tail (trimmed e.toList) = none := by
    refine Option.eq_none_iff_forall_ne_some.2 fun values hvalues => ?_
    rw [not_longhand hvalues] at h
    cases h
  obtain ⟨us, vs, -, hread⟩ := units_of_longhand h
  rw [read?_zero (head?_of_units hread), hfive, Option.none_or]
  rfl

theorem eq_of_fiveFields {cs : List Char} (h : fiveFields? cs = some s) :
    s.seconds = [0] ∧ s.years = Cron.years.all := by
  obtain ⟨values, hread, hfields⟩ := Option.bind_eq_some_iff.1 h
  have hvalues := sublists_of_units hread
  obtain _ | ⟨-, _ | ⟨-, _ | ⟨-, _ | ⟨-, _ | ⟨-, _ | _⟩⟩⟩⟩⟩ := hvalues
  cases hfields
  exact ⟨rfl, rfl⟩

/-- The schedule of five fields has its moments at the first second of a minute. -/
theorem minute_of_fiveFields (h : fiveFields? (trimmed e.toList) = some s) {n m : Int}
    (hn : 0 ≤ n) (hnext : s.next? n = some m) : m % 60 = 0 := by
  obtain ⟨hseconds, hyears⟩ := eq_of_fiveFields h
  have hfinds := findsNext (proper_of_read (read?_of_fiveFields h))
    (yearsGoOn_of_all hyears (Int.le_refl 0)) n hn
  rw [hnext] at hfinds
  have hsecond := ((admits_iff _).1 hfinds.1.2).1.2.2
  rw [hseconds, List.mem_singleton] at hsecond
  simp only [Civil.ofSeconds, Civil.daySeconds] at hsecond
  omega

end Schedule

/-- What an expression is read as, by the fields of its text and the number of its words. A
    shorthand is always read as it stands. Six or seven fields are read as they stand exactly if
    they are not written as five words; those that are get a zero in front, and each field is taken
    for the unit after its own. Five fields are read as those of the first second of a minute
    exactly if they are written as five words; those that are not are refused. -/
theorem fields_told_by_words (e : String) :
    (∀ s, Schedule.shorthand? (trimmed e.toList) = some s → parse? e = some s) ∧
    (∀ s, Schedule.longhand? (trimmed e.toList) = some s →
      (parse? e = some s ↔ wordCount e ≠ 5) ∧
      (wordCount e = 5 → parse? e = Schedule.fromMinute? (trimmed e.toList))) ∧
    ∀ s, Schedule.fiveFields? (trimmed e.toList) = some s →
      (parse? e = some s ↔ wordCount e = 5) ∧
      (wordCount e ≠ 5 → parse? e = none) ∧
      Schedule.read? ("0 " ++ trim e) = some s ∧
      ∀ n m : Int, 0 ≤ n → s.next? n = some m → m % 60 = 0 := by
  refine ⟨fun s h => ?_, fun s h => ?_, fun s h => ?_⟩
  · have hwords : wordCount e ≠ 5 := by
      rw [wordCount_of_shorthand h]
      decide
    rw [parse?_of_ne hwords, Schedule.read?_trim, h, Option.some_or]
  · have hmoved (hwords : wordCount e = 5) :
        parse? e = Schedule.fromMinute? (trimmed e.toList) := by
      rw [parse?_of_five hwords, Schedule.read?_of_longhand h]
    refine ⟨⟨fun hs hwords => ?_, fun hwords => ?_⟩, hmoved⟩
    · exact Schedule.fromMinute?_ne h ((hmoved hwords).symm.trans hs)
    · obtain ⟨us, vs, -, hread⟩ := Schedule.units_of_longhand h
      rw [parse?_of_ne hwords, Schedule.read?_trim, Schedule.shorthand?_of_units hread,
        Option.none_or, h]
  · have hread := Schedule.read?_of_fiveFields h
    have hnone (hwords : wordCount e ≠ 5) : parse? e = none := by
      rw [parse?_of_ne hwords, Schedule.read?_trim_of_fiveFields h]
    refine ⟨⟨fun hs => ?_, fun hwords => ?_⟩, hnone, hread,
      fun n m hn hnext => Schedule.minute_of_fiveFields h hn hnext⟩
    · by_contra hwords
      rw [hnone hwords] at hs
      cases hs
    · rw [parse?_of_five hwords, hread]

/-- The six fields of `** * * * *` are five words. They name every second, and what is read is every
    minute. The five fields of `*/5 * * * 1 , 3` are seven words, and nothing is read. -/
theorem fields_told_by_words_of_joined :
    (∃ s read, Schedule.longhand? (trimmed "** * * * *".toList) = some s ∧
      s.next? 0 = some 1 ∧ parse? "** * * * *" = some read ∧ read.next? 0 = some 60) ∧
    ∃ s, Schedule.fiveFields? (trimmed "*/5 * * * 1 , 3".toList) = some s ∧
      s.next? 0 = some 259200 ∧ parse? "*/5 * * * 1 , 3" = none := by
  refine ⟨?_, ?_⟩
  · obtain ⟨s, hs, hnext⟩ := Option.bind_eq_some_iff.1 (show
      (Schedule.longhand? (trimmed "** * * * *".toList)).bind (·.next? 0) = some 1 by
        decide +kernel)
    obtain ⟨read, hread, hminute⟩ := Option.bind_eq_some_iff.1 (show
      (Schedule.fromMinute? (trimmed "** * * * *".toList)).bind (·.next? 0) = some 60 by
        decide +kernel)
    have hwords : wordCount "** * * * *" = 5 := by decide +kernel
    refine ⟨s, read, hs, hnext, ?_, hminute⟩
    rw [((fields_told_by_words _).2.1 s hs).2 hwords, hread]
  · obtain ⟨s, hs, hnext⟩ := Option.bind_eq_some_iff.1 (show
      (Schedule.fiveFields? (trimmed "*/5 * * * 1 , 3".toList)).bind (·.next? 0) =
        some 259200 by decide +kernel)
    have hwords : wordCount "*/5 * * * 1 , 3" ≠ 5 := by decide +kernel
    exact ⟨s, hs, hnext, ((fields_told_by_words _).2.2 s hs).2.1 hwords⟩

end Cron

end SignedRecords
