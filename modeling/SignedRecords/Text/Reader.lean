/-!
# Readers of text

A reader takes characters from the front of a text and answers what they stand for and what is
left, or nothing when they stand for nothing. Choices are ordered: the first reader that succeeds
is taken, and its answer is not taken back.
-/

namespace SignedRecords

/-- Takes characters from the front of a text. -/
abbrev Reader (α : Type) := List Char → Option (α × List Char)

namespace Reader

variable {α β γ : Type}

/-- Takes one given character. -/
def exactly (c : Char) : Reader Unit
  | d :: rest => if c = d then some ((), rest) else none
  | [] => none

/-- Applies a function to what was read. -/
def map (f : α → β) (r : Reader α) : Reader β := fun cs =>
  match r cs with
  | some (a, rest) => some (f a, rest)
  | none => none

/-- Takes one thing after another. -/
def both (f : α → β → γ) (r : Reader α) (s : Reader β) : Reader γ := fun cs =>
  match r cs with
  | some (a, rest) =>
    match s rest with
    | some (b, after) => some (f a b, after)
    | none => none
  | none => none

/-- Takes the first thing that is there. -/
def either (r s : Reader α) : Reader α := fun cs =>
  match r cs with
  | some x => some x
  | none => s cs

/-- Takes the longest run of some characters, which must not be empty. -/
def run (p : Char → Bool) : Reader (List Char) := fun cs =>
  match cs.takeWhile p with
  | [] => none
  | taken => some (taken, cs.dropWhile p)

end Reader

end SignedRecords
