/-!
# Fields of a cron expression

Each field of an expression lists values of one unit of time: everything, single values, ranges,
names, and every n-th value of these. A list of elements stands for the values that any of them
stands for; it stands for nothing when one of them names a value that the unit does not have, when
a range runs backwards, or when a step is zero.
-/

namespace SignedRecords.Cron

/-! ## 1. Units -/

/-- A unit of time, with the values that it has and the names of some of them. -/
structure TimeUnit where
  low : Nat
  high : Nat
  /-- Names in small letters, with their values. -/
  names : List (String × Nat)
  /-- Whether a question mark stands for everything. -/
  anyMark : Bool

def seconds : TimeUnit := ⟨0, 59, [], false⟩

def minutes : TimeUnit := ⟨0, 59, [], false⟩

def hours : TimeUnit := ⟨0, 23, [], false⟩

def daysOfMonth : TimeUnit := ⟨1, 31, [], true⟩

def months : TimeUnit :=
  ⟨1, 12,
   [("jan", 1), ("january", 1), ("feb", 2), ("february", 2), ("mar", 3), ("march", 3),
    ("apr", 4), ("april", 4), ("may", 5), ("jun", 6), ("june", 6), ("jul", 7), ("july", 7),
    ("aug", 8), ("august", 8), ("sep", 9), ("september", 9), ("oct", 10), ("october", 10),
    ("nov", 11), ("november", 11), ("dec", 12), ("december", 12)],
   false⟩

def daysOfWeek : TimeUnit :=
  ⟨1, 7,
   [("sun", 1), ("sunday", 1), ("mon", 2), ("monday", 2), ("tue", 3), ("tues", 3),
    ("tuesday", 3), ("wed", 4), ("wednesday", 4), ("thu", 5), ("thurs", 5), ("thursday", 5),
    ("fri", 6), ("friday", 6), ("sat", 7), ("saturday", 7)],
   true⟩

def years : TimeUnit := ⟨1970, 2100, [], false⟩

namespace TimeUnit

/-- The value itself, if the unit has it. -/
def value? (u : TimeUnit) (n : Nat) : Option Nat :=
  if u.low ≤ n ∧ n ≤ u.high then some n else none

/-- The value of a name, in any case. -/
def named? (u : TimeUnit) (name : List Char) : Option Nat :=
  (u.names.find? fun entry => entry.1.toList == name.map Char.toLower).map (·.2)

/-- Every value, in increasing order. -/
def all (u : TimeUnit) : List Nat := List.range' u.low (u.high + 1 - u.low)

end TimeUnit

/-! ## 2. Elements -/

/-- Values in a row. -/
inductive Span where
  | all
  | range (first last : Nat)
  | point (n : Nat)
  | namedRange (first last : List Char)
  deriving DecidableEq

/-- An element of a list. -/
inductive Element where
  | every (span : Span) (step : Nat)
  | plain (span : Span)
  | named (name : List Char)
  deriving DecidableEq

/-- A field: its elements. -/
abbrev Field := List Element

/-- The values from one to another, if they do not run backwards. -/
def between? (first last : Nat) : Option (List Nat) :=
  if first ≤ last then some (List.range' first (last + 1 - first)) else none

/-- The values of a span. -/
def Span.values? (u : TimeUnit) : Span → Option (List Nat)
  | .all => some u.all
  | .range a b => do between? (← u.value? a) (← u.value? b)
  | .point n => (u.value? n).map fun n => [n]
  | .namedRange a b => do between? (← u.named? a) (← u.named? b)

/-- The values that a step counts through; from a single value it counts to the highest one. -/
def Span.run? (u : TimeUnit) : Span → Option (List Nat)
  | .point n => do between? (← u.value? n) u.high
  | span => span.values? u

/-- Every `step`-th of some values, the first one included. -/
def everyNth (step : Nat) (values : List Nat) : List Nat :=
  (values.zipIdx.filter fun v => v.2 % step == 0).map (·.1)

/-- The values of an element. -/
def Element.values? (u : TimeUnit) : Element → Option (List Nat)
  | .every span step => if step = 0 then none else (span.run? u).map (everyNth step)
  | .plain span => span.values? u
  | .named name => (u.named? name).map fun n => [n]

/-- The values of a field, in increasing order. -/
def fieldValues? (u : TimeUnit) (field : Field) : Option (List Nat) :=
  (field.mapM (Element.values? u)).map fun parts =>
    u.all.filter fun n => parts.any (·.contains n)

end SignedRecords.Cron
