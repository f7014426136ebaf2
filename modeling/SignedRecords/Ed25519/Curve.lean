import SignedRecords.Bytes.Fixed

/-!
# The curve of Ed25519

Numbers modulo `2^255 - 19`, the points of the twisted Edwards curve
`-x² + y² = 1 + d x² y²` in extended coordinates, and their 32-octet form.

The addition law is complete: one formula serves sums, doubles and the neutral point, so nothing
here branches on a point. Reading a point obeys its sign bit by negating the even root, also where
the root is zero, and takes `y` modulo the prime.
-/

namespace SignedRecords.Ed25519

/-! ## 1. The field -/

/-- The prime of the field. -/
def prime : Nat := Nat.pow 2 255 - 19

/-- The sum of two numbers modulo the prime. -/
def addMod (a b : Nat) : Nat := (a + b) % prime

/-- The difference of two reduced numbers modulo the prime. -/
def subMod (a b : Nat) : Nat := (a + prime - b) % prime

/-- The product of two numbers modulo the prime. -/
def mulMod (a b : Nat) : Nat := a * b % prime

/-- The bits of a number below `2 ^ w`, highest first. -/
def bits : Nat → Nat → List Bool
  | 0, _ => []
  | w + 1, n => n.testBit w :: bits w n

/-- A power modulo the prime; the exponent is below `2 ^ 255`. -/
def powMod (a e : Nat) : Nat :=
  (bits 255 e).foldl (fun r b => if b then mulMod (mulMod r r) a else mulMod r r) 1

/-- The inverse of a number that is not zero modulo the prime. -/
def invMod (a : Nat) : Nat := powMod a (prime - 2)

/-- The coefficient of the curve. -/
def coefficient : Nat :=
  37095705934669439343138083508754565189542113879843219016388785533085940283555

/-- A square root of minus one. -/
def rootOfMinusOne : Nat :=
  19681161376707505956807079304988542015446066515923890162744021073123829784752

/-- The even root of `u / v`, if there is a root. -/
def sqrtRatio? (u v : Nat) : Option Nat :=
  let v3 := mulMod (mulMod v v) v
  let v7 := mulMod (mulMod v3 v3) v
  let r := mulMod (mulMod u v3) (powMod (mulMod u v7) ((prime - 5) / 8))
  let check := mulMod v (mulMod r r)
  let root? :=
    if check = u % prime then some r
    else if check = subMod 0 (u % prime) then some (mulMod r rootOfMinusOne)
    else none
  root?.map fun x => if x % 2 = 1 then prime - x else x

/-! ## 2. Points -/

/-- A point in extended coordinates: `x / z`, `y / z`, and `t = x y / z`. -/
structure Point where
  x : Nat
  y : Nat
  z : Nat
  t : Nat
  deriving DecidableEq, Repr

namespace Point

/-- The neutral point. -/
def neutral : Point := ⟨0, 1, 1, 0⟩

/-- The base point. -/
def base : Point :=
  ⟨15112221349535400772501151409588531511454012693041857206046113283949847762202,
   46316835694926478169428394003475163141307993866256225615783033603165251855960,
   1,
   46827403850823179245072216630277197565144205554125654976674165829533817101731⟩

/-- The sum of two points. -/
def add (p q : Point) : Point :=
  let a := mulMod p.x q.x
  let b := mulMod p.y q.y
  let c := mulMod (mulMod coefficient p.t) q.t
  let d := mulMod p.z q.z
  let e := subMod (mulMod (p.x + p.y) (q.x + q.y)) (addMod a b)
  let f := subMod d c
  let g := addMod d c
  let h := addMod b a
  ⟨mulMod e f, mulMod g h, mulMod f g, mulMod e h⟩

/-- The opposite point. -/
def neg (p : Point) : Point := ⟨subMod 0 p.x, p.y, p.z, subMod 0 p.t⟩

/-- The sum of `n` copies of a point, for `n` below `2 ^ 256`. -/
def times (n : Nat) (p : Point) : Point :=
  (bits 256 n).foldl (fun r b => if b then (r.add r).add p else r.add r) neutral

/-! ## 3. The 32-octet form -/

/-- `y`, and in the highest bit whether `x` is odd. -/
def octets (p : Point) : Octets 32 :=
  let inverse := invMod p.z
  let x := mulMod p.x inverse
  let y := mulMod p.y inverse
  ⟨Bytes.littleEndian 32 (y + Nat.pow 2 255 * (x % 2)), Bytes.length_littleEndian _ _⟩

/-- The point with this `y` and sign, if the curve has one. -/
def ofOctets? (bs : Octets 32) : Option Point :=
  let n := Bytes.ofLittleEndian bs.toList
  let y := n % Nat.pow 2 255 % prime
  let yy := mulMod y y
  (sqrtRatio? (subMod yy 1) (addMod (mulMod coefficient yy) 1)).map fun root =>
    let x := if n.testBit 255 then subMod 0 root else root
    ⟨x, y, 1, mulMod x y⟩

end Point

end SignedRecords.Ed25519
