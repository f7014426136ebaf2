import SignedRecords.Bytes.Fixed
import SignedRecords.Text.Reader

/-!
# Socket addresses

An IPv4 or IPv6 address with a port. IPv6 addresses also have a flow label and a scope.

## Text

IPv4 is written `1.2.3.4:80`. IPv6 is written in brackets, groups in lower case without leading
zeros, with `::` for the first longest run of two or more zero groups; an address that embeds an
IPv4 one is written `::ffff:1.2.3.4`, and a scope other than zero follows after `%`.

Reading takes the forms that are written, and besides them leading zeros in groups, ports and
scopes, capitals, `::` for any number of groups, and an IPv4 tail in any address. Nothing may
follow.
-/

namespace SignedRecords

/-- A socket address. -/
inductive Address where
  | v4 (ip : Octets 4) (port : UInt16)
  | v6 (ip : Octets 16) (port : UInt16) (flow : UInt32) (scope : UInt32)
  deriving DecidableEq

namespace Address

instance : Inhabited Address := ⟨.v4 default 0⟩

/-! ## 1. Writing -/

/-- Four decimal numbers between points. -/
def dotted (ip : Bytes) : String := ".".intercalate (ip.map fun b => toString b.toNat)

/-- The groups of an address: numbers of sixteen bits. -/
def groups : Bytes → List Nat
  | a :: b :: rest => (256 * a.toNat + b.toNat) :: groups rest
  | _ => []

/-- The hexadecimal text of a group. -/
def groupText (n : Nat) : String := String.ofList (Nat.toDigits 16 n)

/-- Groups between colons. -/
def colons (gs : List Nat) : String := ":".intercalate (gs.map groupText)

/-- The length of the run of zeros at the front. -/
def zeroRun (gs : List Nat) : Nat := (gs.takeWhile (· == 0)).length

/-- The first longest run of zeros, as its position and length; `i` is the position of the first
    group. -/
def longestRun (i : Nat) : List Nat → Nat × Nat
  | [] => (i, 0)
  | g :: rest =>
    let here := zeroRun (g :: rest)
    let later := longestRun (i + 1) rest
    if later.2 ≤ here then (i, here) else later

/-- The text of an IPv6 address. -/
def ipv6Text (ip : Bytes) : String :=
  let gs := groups ip
  if gs.take 6 = [0, 0, 0, 0, 0, 0xFFFF] then "::ffff:" ++ dotted (ip.drop 12)
  else
    let (start, length) := longestRun 0 gs
    if length ≤ 1 then colons gs
    else colons (gs.take start) ++ "::" ++ colons (gs.drop (start + length))

/-- The text of an address. -/
def text : Address → String
  | .v4 ip port => s!"{dotted ip.toList}:{port.toNat}"
  | .v6 ip port _ scope =>
    let tail := if scope = 0 then "" else s!"%{scope.toNat}"
    s!"[{ipv6Text ip.toList}{tail}]:{port.toNat}"

/-! ## 2. Reading -/

/-- The value of a digit in a base of at most sixteen. -/
def digitValue? (base : Nat) (c : Char) : Option Nat :=
  let n := c.toNat
  let v? :=
    if 48 ≤ n ∧ n ≤ 57 then some (n - 48)
    else if 97 ≤ n ∧ n ≤ 102 then some (n - 87)
    else if 65 ≤ n ∧ n ≤ 70 then some (n - 55)
    else none
  v?.filter (· < base)

/-- The digits at the front of a text. -/
def takeDigits (base : Nat) : List Char → List Nat × List Char
  | [] => ([], [])
  | c :: rest =>
    match digitValue? base c with
    | none => ([], c :: rest)
    | some v =>
      let (vs, after) := takeDigits base rest
      (v :: vs, after)

/-- A number below `bound` of at least one digit; `maxDigits` bounds their number, and without
    `zeroFirst` a number of several digits does not start with zero. -/
def number (base bound : Nat) (maxDigits : Option Nat) (zeroFirst : Bool) : Reader Nat := fun cs =>
  let (vs, rest) := takeDigits base cs
  let value := vs.foldl (fun n v => base * n + v) 0
  let fits := match maxDigits with
    | some m => vs.length ≤ m
    | none => true
  let leading := zeroFirst || vs.length ≤ 1 || vs.head? != some 0
  if vs.isEmpty || !fits || bound ≤ value || !leading then none else some (value, rest)

/-- A number after the separator `c`, which stands before every one but the first. -/
def separated {α : Type} (c : Char) (first : Bool) (r : Reader α) : Reader α := fun cs =>
  if first then r cs
  else
    match Reader.exactly c cs with
    | none => none
    | some ((), rest) => r rest

/-- `n` numbers of an IPv4 address. -/
def ipv4Parts : Nat → Bool → Reader Bytes
  | 0, _, cs => some ([], cs)
  | n + 1, first, cs =>
    match separated '.' first (number 10 256 (some 3) false) cs with
    | none => none
    | some (v, rest) =>
      match ipv4Parts n false rest with
      | none => none
      | some (vs, after) => some (UInt8.ofNat v :: vs, after)

/-- Four numbers between points. -/
def ipv4 : Reader Bytes := ipv4Parts 4 true

/-- At most `n` groups; the flag says whether they end in an IPv4 address, which takes the place
    of two groups. -/
def groupParts : Nat → Bool → List Char → (Bytes × Bool) × List Char
  | 0, _, cs => (([], false), cs)
  | n + 1, first, cs =>
    let tail? := if n = 0 then none else separated ':' first ipv4 cs
    match tail? with
    | some (ip, rest) => ((ip, true), rest)
    | none =>
      match separated ':' first (number 16 65536 (some 4) true) cs with
      | none => (([], false), cs)
      | some (g, rest) =>
        let ((gs, tail), after) := groupParts n false rest
        ((UInt8.ofNat (g / 256) :: UInt8.ofNat (g % 256) :: gs, tail), after)

/-- The sixteen octets of an IPv6 address. -/
def ipv6 : Reader Bytes := fun cs =>
  let ((head, tail), rest) := groupParts 8 true cs
  if head.length = 16 then some (head, rest)
  else if tail then none
  else
    match rest with
    | ':' :: ':' :: rest =>
      let ((back, _), after) := groupParts (7 - head.length / 2) true rest
      some (head ++ List.replicate (16 - head.length - back.length) 0 ++ back, after)
    | _ => none

/-- A colon and a port. -/
def port : Reader UInt16 := fun cs =>
  match Reader.exactly ':' cs with
  | none => none
  | some ((), rest) =>
    match number 10 UInt16.size none true rest with
    | none => none
    | some (p, after) => some (UInt16.ofNat p, after)

/-- A percent sign and a scope, or nothing for scope zero. -/
def scope : List Char → UInt32 × List Char
  | '%' :: rest =>
    match number 10 UInt32.size none true rest with
    | none => (0, '%' :: rest)
    | some (s, after) => (UInt32.ofNat s, after)
  | cs => (0, cs)

/-- An IPv4 address with its port. -/
def readV4 : Reader Address := fun cs =>
  match ipv4 cs with
  | none => none
  | some (ip, rest) =>
    match Octets.ofBytes? 4 ip, port rest with
    | some ip, some (p, after) => some (.v4 ip p, after)
    | _, _ => none

/-- An IPv6 address in brackets with its port. -/
def readV6 : Reader Address := fun cs =>
  match cs with
  | '[' :: rest =>
    match ipv6 rest with
    | none => none
    | some (ip, rest) =>
      match scope rest with
      | (s, ']' :: rest) =>
        match Octets.ofBytes? 16 ip, port rest with
        | some ip, some (p, after) => some (.v6 ip p 0 s, after)
        | _, _ => none
      | _ => none
  | _ => none

/-- Reads a whole text as an address. -/
def read? (text : String) : Option Address :=
  match (readV4 text.toList).or (readV6 text.toList) with
  | some (a, []) => some a
  | _ => none

end Address

end SignedRecords
