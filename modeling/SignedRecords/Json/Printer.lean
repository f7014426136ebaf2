import SignedRecords.Json.Basic

/-!
# Writing JSON

Each member and each element on a line of its own, two spaces for every level, and nothing between
the brackets of an empty list or object. Quotes, backslashes and control characters are escaped,
the latter by a letter where there is one; so is half of a surrogate pair that stands alone.
-/

namespace SignedRecords.Json

/-- The digits of a code point below `2 ^ 16` after `\u`. -/
def hexEscape (n : Nat) : List Char :=
  let digit (k : Nat) : Char := "0123456789abcdef".toList.getD (k % 16) '0'
  ['\\', 'u', digit (n / 4096), digit (n / 256), digit (n / 16), digit n]

/-- A code point inside quotes. -/
def quotedPoint (n : Nat) : List Char :=
  if n = 0x22 then ['\\', '"']
  else if n = 0x5C then ['\\', '\\']
  else if n = 0x08 then ['\\', 'b']
  else if n = 0x0C then ['\\', 'f']
  else if n = 0x0A then ['\\', 'n']
  else if n = 0x0D then ['\\', 'r']
  else if n = 0x09 then ['\\', 't']
  else if n < 0x20 ∨ (0xD800 ≤ n ∧ n < 0xE000) then hexEscape n
  else [Char.ofNat n]

/-- A text in quotes. -/
def quote (content : CodePoints) : String :=
  String.ofList ('"' :: content.flatMap quotedPoint ++ ['"'])

/-- A new line at a level. -/
def line (level : Nat) : String := String.ofList ('\n' :: List.replicate (2 * level) ' ')

/-- Parts between two brackets. -/
def block (left right : String) (level : Nat) (parts : List String) : String :=
  if parts.isEmpty then left ++ right
  else
    left ++ ",".intercalate (parts.map fun part => line (level + 1) ++ part) ++ line level ++ right

mutual

/-- The text of a value at a level. -/
def printAt (level : Nat) : Json → String
  | .null => "null"
  | .flag b => if b then "true" else "false"
  | .number n => toString (n.getD 0)
  | .text content => quote content
  | .list elements => block "[" "]" level (printElements (level + 1) elements)
  | .object members => block "\x7b" "\x7d" level (printMembers (level + 1) members)

/-- The texts of some elements at a level. -/
def printElements (level : Nat) : List Json → List String
  | [] => []
  | value :: rest => printAt level value :: printElements level rest

/-- The texts of some members at a level. -/
def printMembers (level : Nat) : List (CodePoints × Json) → List String
  | [] => []
  | (key, value) :: rest =>
    (quote key ++ ": " ++ printAt level value) :: printMembers level rest

end

/-- The text of a value. -/
def print (value : Json) : String := value.printAt 0

end SignedRecords.Json
