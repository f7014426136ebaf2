/-!
# Sizes for readers

A number of octets in the largest of five units that it reaches, with two decimals. The number is
first rounded to 53 binary digits, and both roundings go to the nearest value, a tie to the even
one.
-/

namespace SignedRecords.ByteCount

/-- The quotient rounded to the nearest number, a tie to the even one. -/
def roundDiv (num den : Nat) : Nat :=
  let q := num / den
  let r := num % den
  if den < 2 * r ∨ (2 * r = den ∧ q % 2 = 1) then q + 1 else q

/-- The number rounded to 53 binary digits. -/
def rounded (n : Nat) : Nat :=
  let scale := Nat.pow 2 (Nat.log2 n - 52)
  roundDiv n scale * scale

/-- The units, each 1024 times the one before. -/
def units : List String := ["B", "KB", "MB", "GB", "TB"]

/-- The largest unit that a number reaches. -/
def unitOf (n : Nat) : Nat := min (Nat.log2 n / 10) (units.length - 1)

/-- A number of hundredths with two decimals. -/
def hundredths (n : Nat) : String :=
  s!"{n / 100}.{n % 100 / 10}{n % 10}"

/-- The text of a number of octets. -/
def text (n : Nat) : String :=
  if n = 0 then "0 B"
  else
    let u := unitOf n
    hundredths (roundDiv (100 * rounded n) (Nat.pow 1024 u)) ++ " " ++ units.getD u ""

end SignedRecords.ByteCount
