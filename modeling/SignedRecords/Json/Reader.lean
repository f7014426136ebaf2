import SignedRecords.Json.Token

/-!
# Reading JSON

Tokens are put together by a machine that keeps the lists and objects that are open, the innermost
one first, so that a document may be nested to any depth.
-/

namespace SignedRecords.Json

/-- A list or an object that is still open; its parts so far are in reverse. -/
inductive Frame where
  | list (elements : List Json)
  /-- An object that waits for the value of a member. -/
  | object (members : List (CodePoints × Json)) (key : CodePoints)

/-- What has to come next. -/
inductive Expected where
  /-- A value. -/
  | value
  /-- A value, or the end of a list that has just been opened. -/
  | firstElement
  /-- The name of a member. -/
  | key (members : List (CodePoints × Json))
  /-- The name of a member, or the end of an object that has just been opened. -/
  | firstKey
  /-- The colon after the name of a member. -/
  | colon (members : List (CodePoints × Json)) (key : CodePoints)
  /-- What may follow a value: a comma, the end of the innermost list or object, or nothing. -/
  | after (value : Json)

/-- The machine: the open lists and objects, and what has to come next. -/
structure State where
  frames : List Frame
  expected : Expected

/-- One token. -/
def State.step (s : State) (t : Token) : Option State :=
  match s.expected, t with
  | .value, .word v | .firstElement, .word v => some ⟨s.frames, .after v⟩
  | .value, .quoted c | .firstElement, .quoted c => some ⟨s.frames, .after (.text c)⟩
  | .value, .openBracket | .firstElement, .openBracket =>
    some ⟨.list [] :: s.frames, .firstElement⟩
  | .value, .openBrace | .firstElement, .openBrace => some ⟨s.frames, .firstKey⟩
  | .firstElement, .closeBracket =>
    match s.frames with
    | .list _ :: frames => some ⟨frames, .after (.list [])⟩
    | _ => none
  | .firstKey, .closeBrace => some ⟨s.frames, .after (.object [])⟩
  | .firstKey, .quoted key => some ⟨s.frames, .colon [] key⟩
  | .key members, .quoted key => some ⟨s.frames, .colon members key⟩
  | .colon members key, .colon => some ⟨.object members key :: s.frames, .value⟩
  | .after v, .comma =>
    match s.frames with
    | .list elements :: frames => some ⟨.list (v :: elements) :: frames, .value⟩
    | .object members key :: frames => some ⟨frames, .key ((key, v) :: members)⟩
    | [] => none
  | .after v, .closeBracket =>
    match s.frames with
    | .list elements :: frames => some ⟨frames, .after (.list (v :: elements).reverse)⟩
    | _ => none
  | .after v, .closeBrace =>
    match s.frames with
    | .object members key :: frames =>
      some ⟨frames, .after (.object ((key, v) :: members).reverse)⟩
    | _ => none
  | _, _ => none

/-- All tokens; the value is whole when nothing is open and nothing more has to come. -/
def State.run (s : State) : List Token → Option Json
  | [] =>
    match s with
    | ⟨[], .after value⟩ => some value
    | _ => none
  | t :: rest =>
    match s.step t with
    | some s => s.run rest
    | none => none

/-- The value of a JSON text. -/
def read? (text : String) : Option Json := (tokens? text).bind (State.run ⟨[], .value⟩)

end SignedRecords.Json
