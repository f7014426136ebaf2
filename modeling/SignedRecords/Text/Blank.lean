/-!
# Blank characters

The white space of Unicode, and what is done with it: cutting it off at both ends of a text and
counting the words between it.
-/

namespace SignedRecords.Blank

/-- A character that Unicode counts as white space. -/
def isBlank (c : Char) : Bool :=
  let n := c.toNat
  (9 ≤ n && n ≤ 13) || n == 0x20 || n == 0x85 || n == 0xA0 || n == 0x1680 ||
    (0x2000 ≤ n && n ≤ 0x200A) || n == 0x2028 || n == 0x2029 || n == 0x202F || n == 0x205F ||
    n == 0x3000

/-- Characters without the blanks at both ends. -/
def trimmed (cs : List Char) : List Char :=
  ((cs.dropWhile isBlank).reverse.dropWhile isBlank).reverse

/-- A text without the blanks at both ends. -/
def trim (text : String) : String := String.ofList (trimmed text.toList)

/-- The number of words, counted at their first characters; `inWord` says whether the character
    before belonged to one. -/
def wordsFrom (inWord : Bool) : List Char → Nat
  | [] => 0
  | c :: rest =>
    if isBlank c then wordsFrom false rest
    else if inWord then wordsFrom true rest
    else wordsFrom true rest + 1

/-- The number of words between blanks. -/
def wordCount (text : String) : Nat := wordsFrom false text.toList

end SignedRecords.Blank
