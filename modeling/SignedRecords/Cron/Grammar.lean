import SignedRecords.Cron.Field
import SignedRecords.Text.Reader

/-!
# The grammar of cron expressions

    field   := white* element ("," element)* white*
    element := span "/" number | span | name
    span    := "*" | number "-" number | number | name "-" name
    number  := white* digit+ white*
    name    := white* letter+ white*

Choices are taken in this order. White space between fields is optional, and it may stand around
every number and name; a comma that no element follows ends the field before it.
-/

namespace SignedRecords.Cron

open Reader

/-- White space inside an expression. -/
def isWhite (c : Char) : Bool := c == ' ' || c == '\t' || c == '\r' || c == '\n'

/-- Takes something with white space around it. -/
def spaced {α : Type} (r : Reader α) : Reader α := fun cs =>
  match r (cs.dropWhile isWhite) with
  | some (a, rest) => some (a, rest.dropWhile isWhite)
  | none => none

/-- The number of some digits. -/
def numberOf (digits : List Char) : Nat :=
  digits.foldl (fun n c => 10 * n + (c.toNat - '0'.toNat)) 0

/-- Takes a number of 32 bits. -/
def number : Reader Nat := spaced fun cs =>
  match run Char.isDigit cs with
  | some (digits, rest) =>
    if numberOf digits < UInt32.size then some (numberOf digits, rest) else none
  | none => none

/-- Takes a name. -/
def name : Reader (List Char) := spaced (run Char.isAlpha)

/-- Takes the sign that stands for everything. -/
def everything (u : TimeUnit) : Reader Unit :=
  if u.anyMark then either (exactly '*') (exactly '?') else exactly '*'

/-- Takes two things with a dash between them. -/
def dashed {α β : Type} (f : α → α → β) (r : Reader α) : Reader β :=
  both f r (both (fun _ b => b) (exactly '-') r)

/-- Takes a span. -/
def span (u : TimeUnit) : Reader Span :=
  either (map (fun _ => .all) (everything u)) <|
  either (dashed .range number) <|
  either (map .point number) (dashed .namedRange name)

/-- Takes an element. -/
def element (u : TimeUnit) : Reader Element :=
  either (both .every (span u) (both (fun _ n => n) (exactly '/') number)) <|
  either (map .plain (span u)) (map .named name)

/-- Takes at most `n` elements with a comma before each of them. -/
def moreElements (u : TimeUnit) : Nat → Reader (List Element)
  | 0, cs => some ([], cs)
  | n + 1, cs =>
    match both (fun _ e => e) (exactly ',') (element u) cs with
    | some (e, rest) => map (e :: ·) (moreElements u n) rest
    | none => some ([], cs)

/-- Takes a field; it has no more elements than there are characters. -/
def field (u : TimeUnit) : Reader Field := spaced fun cs =>
  both List.cons (element u) (moreElements u cs.length) cs

/-- Takes one field for each unit, as its values. -/
def fields : List TimeUnit → Reader (List (List Nat))
  | [], cs => some ([], cs)
  | u :: us, cs =>
    match field u cs with
    | some (f, rest) =>
      match fieldValues? u f with
      | some values => map (values :: ·) (fields us) rest
      | none => none
    | none => none

end SignedRecords.Cron
