import SignedRecords.Digest.Sha512
import SignedRecords.Ed25519.Curve

/-!
# Ed25519 keys and signatures

A secret key is a seed of 32 octets; its digest gives the secret scalar and the seed of the
nonces. A public key keeps the octets it was read from, and these are what is hashed and shown.

A signature `R ‖ S` of a message holds for a public key `A` when the octets of `S·B - k·A` are
exactly `R`, where `k` is the digest of `R ‖ A ‖ message` modulo the order of the base point.
There is no multiplication by the cofactor, and points of small order are not refused. Before
that, `S` has to be below `2^253` and below the order.
-/

namespace SignedRecords.Ed25519

/-- The order of the base point. -/
def order : Nat := Nat.pow 2 252 + 27742317777372353535851937790883648493

/-- A digest read as a number modulo the order. -/
def scalarOf (message : Bytes) : Nat :=
  Bytes.ofLittleEndian (Sha512.digest message).toList % order

/-! ## 1. Keys -/

/-- A public key: octets that are the form of a point. -/
structure PublicKey where
  octets : Octets 32
  point : Point
  point_eq : Point.ofOctets? octets = some point

/-- Reads a public key. -/
def PublicKey.ofOctets? (bs : Octets 32) : Option PublicKey :=
  match h : Point.ofOctets? bs with
  | some p => some ⟨bs, p, h⟩
  | none => none

/-- A secret key is its seed. -/
structure SecretKey where
  seed : Octets 32
  deriving DecidableEq

/-- The secret scalar: the first half of the digest of the seed, with the low three bits and the
    highest bit cleared and the second highest set. -/
def SecretKey.scalar (k : SecretKey) : Nat :=
  let n := Bytes.ofLittleEndian ((Sha512.digest k.seed.toList).toList.take 32)
  Nat.pow 2 254 + n % Nat.pow 2 254 / 8 * 8

/-- The seed of the nonces: the second half of the digest of the seed. -/
def SecretKey.nonceSeed (k : SecretKey) : Bytes :=
  (Sha512.digest k.seed.toList).toList.drop 32

/-- The octets of the public key that belongs to a secret key. -/
def SecretKey.publicOctets (k : SecretKey) : Octets 32 := (Point.base.times k.scalar).octets

/-! ## 2. Signing -/

/-- The signature of a message; `publicOctets` is the public half of the key. -/
def SecretKey.signAs (k : SecretKey) (publicOctets : Octets 32) (message : Bytes) : Octets 64 :=
  let r := scalarOf (k.nonceSeed ++ message)
  let big := (Point.base.times r).octets
  let h := scalarOf (big.toList ++ publicOctets.toList ++ message)
  let s := (h * k.scalar + r) % order
  ⟨big.toList ++ Bytes.littleEndian 32 s, by simp [big.length_eq]⟩

/-- The signature of a message. -/
def SecretKey.sign (k : SecretKey) (message : Bytes) : Octets 64 :=
  k.signAs k.publicOctets message

/-! ## 3. Checking -/

/-- Why a signature does not hold. -/
inductive Rejection where
  /-- One of the three highest bits of `S` is set. -/
  | highBits
  /-- `S` is not below the order of the base point. -/
  | scalarTooLarge
  /-- The equation of the signature fails. -/
  | equation
  deriving DecidableEq, Repr

/-- Checks a signature of a message. -/
def PublicKey.check (k : PublicKey) (message : Bytes) (signature : Octets 64) :
    Except Rejection Unit :=
  let big := signature.toList.take 32
  let s := Bytes.ofLittleEndian (signature.toList.drop 32)
  if Nat.pow 2 253 ≤ s then .error .highBits
  else if order ≤ s then .error .scalarTooLarge
  else
    let h := scalarOf (big ++ k.octets.toList ++ message)
    let expected := (Point.base.times s).add (k.point.neg.times h)
    if expected.octets.toList = big then .ok () else .error .equation

end SignedRecords.Ed25519
