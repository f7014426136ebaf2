/-!
# JSON values

The tree that a JSON text stands for. Members keep their order and their repetitions, and texts
are lists of code points, because an escape can name half of a surrogate pair: such a list is no
`String` (`Json.text?`), but it is still part of a well-formed document. Of numbers only the
natural ones written without sign, fraction and exponent have a value here.
-/

namespace SignedRecords

/-- A list of code points; halves of surrogate pairs may stand alone. -/
abbrev CodePoints := List Nat

/-- A JSON value. -/
inductive Json where
  | null
  | flag (value : Bool)
  /-- A number; its value, when it is written as a natural number. -/
  | number (value : Option Nat)
  | text (content : CodePoints)
  | list (elements : List Json)
  | object (members : List (CodePoints × Json))

namespace CodePoints

/-- The code points of a text. -/
def ofString (text : String) : CodePoints := text.toList.map Char.toNat

/-- The text of some code points, when each one is a character. -/
def toString? (points : CodePoints) : Option String :=
  (points.mapM fun (n : Nat) => if h : n.isValidChar then some (Char.ofNatAux n h) else none).map
    String.ofList

end CodePoints

namespace Json

/-- The JSON form of a text. -/
def ofText (text : String) : Json := .text (CodePoints.ofString text)

/-- The object of some members. -/
def ofMembers (members : List (String × Json)) : Json :=
  .object (members.map fun m => (CodePoints.ofString m.1, m.2))

/-! ## Reading a value -/

/-- A natural number below `bound`. -/
def natBelow? (bound : Nat) : Json → Option Nat
  | .number (some n) => if n < bound then some n else none
  | _ => none

/-- A text. -/
def text? : Json → Option String
  | .text content => content.toString?
  | _ => none

/-- A list of texts. -/
def texts? : Json → Option (List String)
  | .list elements => elements.mapM text?
  | _ => none

/-- The values of the members with some names. An object gives them by name: other members do not
    count, but their names have to be texts, and no name may stand twice. A list gives them in
    order, the last ones may be missing, and there must be no more. -/
def members? (names : List String) : Json → Option (List (Option Json))
  | .list elements =>
    if elements.length ≤ names.length then
      some (elements.map some ++ List.replicate (names.length - elements.length) none)
    else none
  | .object members => do
    let named ← members.mapM fun m => m.1.toString?.map fun name => (name, m.2)
    names.mapM fun name =>
      match named.filter (·.1 == name) with
      | [] => some none
      | [m] => some (some m.2)
      | _ => none
  | _ => none

/-- Reads a member that may be missing. -/
def orElse {α : Type} (read : Json → Option α) (default : α) : Option Json → Option α
  | none => some default
  | some j => read j

end Json

end SignedRecords
