import SignedRecords.Json.Basic

/-!
# The tokens of a JSON text

A text is cut into signs, words and quoted texts. A word is a longest run of letters, digits,
plus, minus and point, and has to be a literal or a number; between tokens there may be spaces,
tabs and line ends.
-/

namespace SignedRecords.Json

/-- A token. -/
inductive Token where
  | openBrace
  | closeBrace
  | openBracket
  | closeBracket
  | colon
  | comma
  /-- A value without parts: a literal or a number. -/
  | word (value : Json)
  | quoted (content : CodePoints)

/-! ## 1. Numbers and literals -/

/-- Whether a character is a decimal digit. -/
def isDigit (c : Char) : Bool := '0' ≤ c && c ≤ '9'

/-- Drops at least one digit. -/
def dropDigits? : List Char → Option (List Char)
  | c :: rest => if isDigit c then some (rest.dropWhile isDigit) else none
  | [] => none

/-- Drops a whole number: a zero, or digits that do not start with one. -/
def dropWhole? : List Char → Option (List Char)
  | '0' :: rest => some rest
  | cs => dropDigits? cs

/-- Drops a point and digits, if a point is next. -/
def dropFraction? : List Char → Option (List Char)
  | '.' :: rest => dropDigits? rest
  | cs => some cs

/-- Drops an exponent, if one is next. -/
def dropExponent? : List Char → Option (List Char)
  | c :: rest =>
    if c = 'e' ∨ c = 'E' then
      match rest with
      | '+' :: digits | '-' :: digits => dropDigits? digits
      | digits => dropDigits? digits
    else some (c :: rest)
  | [] => some []

/-- Drops a minus sign, if one is next. -/
def dropMinus : List Char → List Char
  | '-' :: rest => rest
  | cs => cs

/-- Whether some characters are a number. -/
def isNumber (cs : List Char) : Bool :=
  ((dropWhole? (dropMinus cs)).bind fun a => (dropFraction? a).bind dropExponent?) == some []

/-- The value of a number that is written with digits alone. -/
def natural? (cs : List Char) : Option Nat :=
  if cs.all isDigit then some (cs.foldl (fun n c => 10 * n + (c.toNat - '0'.toNat)) 0) else none

/-- The value of a word. -/
def word? (cs : List Char) : Option Json :=
  if cs = "null".toList then some .null
  else if cs = "true".toList then some (.flag true)
  else if cs = "false".toList then some (.flag false)
  else if isNumber cs then some (.number (natural? cs))
  else none

/-- Whether a character belongs to words. -/
def inWord (c : Char) : Bool := c.isAlphanum || c == '+' || c == '-' || c == '.'

/-! ## 2. Quoted texts -/

/-- The value of a hexadecimal digit. -/
def hexValue? (c : Char) : Option Nat :=
  if isDigit c then some (c.toNat - '0'.toNat)
  else if 'a' ≤ c ∧ c ≤ 'f' then some (c.toNat - 'a'.toNat + 10)
  else if 'A' ≤ c ∧ c ≤ 'F' then some (c.toNat - 'A'.toNat + 10)
  else none

/-- The number of four hexadecimal digits. -/
def hexNumber? (a b c d : Char) : Option Nat := do
  return 4096 * (← hexValue? a) + 256 * (← hexValue? b) + 16 * (← hexValue? c) + (← hexValue? d)

/-- What a character stands for after a backslash. -/
def escaped? : Char → Option Nat
  | '"' => some 0x22
  | '\\' => some 0x5C
  | '/' => some 0x2F
  | 'b' => some 0x08
  | 'f' => some 0x0C
  | 'n' => some 0x0A
  | 'r' => some 0x0D
  | 't' => some 0x09
  | _ => none

/-- Reads up to the closing quote and answers the code points, an escaped half of a surrogate pair
    as one, and what follows. Control characters have to be escaped. -/
def quoted? : List Char → Option (CodePoints × List Char)
  | [] => none
  | '"' :: rest => some ([], rest)
  | '\\' :: 'u' :: a :: b :: c :: d :: rest =>
    match hexNumber? a b c d, quoted? rest with
    | some n, some (points, after) => some (n :: points, after)
    | _, _ => none
  | '\\' :: c :: rest =>
    match escaped? c, quoted? rest with
    | some n, some (points, after) => some (n :: points, after)
    | _, _ => none
  | c :: rest =>
    if c.toNat < 0x20 then none
    else (quoted? rest).map fun (points, after) => (c.toNat :: points, after)

theorem length_lt_of_quoted? {cs after : List Char} {points : CodePoints}
    (h : quoted? cs = some (points, after)) : after.length < cs.length := by
  fun_induction quoted? cs generalizing points after with
  | case1 => cases h
  | case2 rest =>
    cases h
    exact Nat.lt_succ_self _
  | case3 _ _ _ _ _ _ _ _ hrest _ ih =>
    cases h
    have := ih hrest
    simp only [List.length_cons]
    omega
  | case4 => cases h
  | case5 _ _ _ _ _ _ hrest _ ih =>
    cases h
    have := ih hrest
    simp only [List.length_cons]
    omega
  | case6 => cases h
  | case7 => cases h
  | case8 c rest _ _ _ _ ih =>
    obtain ⟨⟨p, a⟩, hr, he⟩ := Option.map_eq_some_iff.1 h
    cases he
    have := ih hr
    simp only [List.length_cons]
    omega

/-- Whether a code point is the first half of a surrogate pair. -/
def isHighHalf (n : Nat) : Bool := 0xD800 ≤ n && n < 0xDC00

/-- Whether a code point is the second half of a surrogate pair. -/
def isLowHalf (n : Nat) : Bool := 0xDC00 ≤ n && n < 0xE000

/-- Joins the two halves of each surrogate pair. -/
def joinHalves : CodePoints → CodePoints
  | a :: b :: rest =>
    if isHighHalf a && isLowHalf b then
      (0x10000 + 0x400 * (a - 0xD800) + (b - 0xDC00)) :: joinHalves rest
    else a :: joinHalves (b :: rest)
  | points => points

/-! ## 3. Tokens -/

/-- The token of a sign. -/
def sign? : Char → Option Token
  | '{' => some .openBrace
  | '}' => some .closeBrace
  | '[' => some .openBracket
  | ']' => some .closeBracket
  | ':' => some .colon
  | ',' => some .comma
  | _ => none

/-- White space between tokens. -/
def isSpace (c : Char) : Bool := c == ' ' || c == '\t' || c == '\n' || c == '\r'

/-- Cuts a text into tokens; the ones before are given in reverse. -/
def tokensFrom? (before : List Token) : List Char → Option (List Token)
  | [] => some before.reverse
  | c :: rest =>
    if isSpace c then tokensFrom? before rest
    else if c = '"' then
      match _h : quoted? rest with
      | some (points, after) => tokensFrom? (.quoted (joinHalves points) :: before) after
      | none => none
    else if inWord c then
      match word? (c :: rest.takeWhile inWord) with
      | some value => tokensFrom? (.word value :: before) (rest.dropWhile inWord)
      | none => none
    else
      match sign? c with
      | some token => tokensFrom? (token :: before) rest
      | none => none
termination_by cs => cs.length
decreasing_by
  · exact Nat.lt_succ_self _
  · have := length_lt_of_quoted? _h
    simp only [List.length_cons]
    omega
  · have := (List.dropWhile_suffix inWord (l := rest)).length_le
    simp only [List.length_cons]
    omega
  · exact Nat.lt_succ_self _

/-- The tokens of a text. -/
def tokens? (text : String) : Option (List Token) := tokensFrom? [] text.toList

end SignedRecords.Json
