import SignedRecords.Bytes.Hex
import SignedRecords.Ed25519.Signature

/-!
# Keys of record owners

Reading keys from octets and from hexadecimal seeds, signing and checking messages, with the
causes of failure and their wording.
-/

namespace SignedRecords

open Ed25519 (PublicKey SecretKey)

/-! ## 1. Failures -/

/-- What is wrong with the text or octets of a key. -/
inductive KeyFault where
  /-- A key has 32 octets. -/
  | wrongLength (length : Nat)
  /-- The octets are the form of no point. -/
  | noPoint
  /-- The text is not hexadecimal. -/
  | hex (error : Hex.Error)
  deriving DecidableEq, Repr

/-- The wording of a fault. -/
def KeyFault.message : KeyFault → String
  | .wrongLength n => s!"Expected 32 bytes, got {n}"
  | .noPoint => "signature error: Cannot decompress Edwards point"
  | .hex e => e.message

/-- Why there is no key. -/
inductive KeyError where
  | generationFailed (fault : KeyFault)
  | deserializationFailed (fault : KeyFault)
  deriving DecidableEq, Repr

/-- The wording of a key error. -/
def KeyError.message : KeyError → String
  | .generationFailed f => s!"Key generation failed: {f.message}"
  | .deserializationFailed f => s!"Key deserialization failed: {f.message}"

/-- What is wrong with a signature. -/
inductive SignatureFault where
  /-- A signature has 64 octets. -/
  | wrongLength
  /-- The signature does not hold. -/
  | rejected (reason : Ed25519.Rejection)
  deriving DecidableEq, Repr

/-- The wording of a fault. -/
def SignatureFault.message : SignatureFault → String
  | .wrongLength => "Invalid signature length"
  | .rejected .highBits => "signature error"
  | .rejected .scalarTooLarge =>
    "Verification failed: signature error: Cannot use scalar with high-bit set"
  | .rejected .equation =>
    "Verification failed: signature error: Verification equation was not satisfied"

/-- Why a signature was not accepted. -/
inductive SignatureError where
  | verificationFailed (fault : SignatureFault)
  | invalidKey (fault : KeyFault)
  deriving DecidableEq, Repr

/-- The wording of a signature error. -/
def SignatureError.message : SignatureError → String
  | .verificationFailed f => s!"Verification failed: {f.message}"
  | .invalidKey f => s!"Invalid key: {f.message}"

/-! ## 2. Reading keys -/

/-- Reads a public key. -/
def readPublicKey (bs : Bytes) : Except KeyError PublicKey :=
  match Octets.ofBytes? 32 bs with
  | none => .error (.deserializationFailed (.wrongLength bs.length))
  | some octets =>
    match PublicKey.ofOctets? octets with
    | none => .error (.deserializationFailed .noPoint)
    | some key => .ok key

/-- Reads the seed of a secret key. -/
def readSecretKey (bs : Bytes) : Except KeyError SecretKey :=
  match Octets.ofBytes? 32 bs with
  | none => .error (.deserializationFailed (.wrongLength bs.length))
  | some seed => .ok ⟨seed⟩

/-- A secret key together with the octets of its public key. -/
structure KeyPair where
  publicOctets : Octets 32
  secret : SecretKey

/-- The key pair of a secret key. -/
def KeyPair.ofSecret (secret : SecretKey) : KeyPair := ⟨secret.publicOctets, secret⟩

/-- The key pair of a seed in hexadecimal. -/
def KeyPair.ofHexSeed (seed : String) : Except KeyError KeyPair :=
  match Hex.decode seed with
  | .error e => .error (.deserializationFailed (.hex e))
  | .ok bs => (readSecretKey bs).map KeyPair.ofSecret

/-! ## 3. Messages -/

/-- The signature of a message. -/
def KeyPair.sign (pair : KeyPair) (message : Bytes) : Octets 64 :=
  pair.secret.signAs pair.publicOctets message

/-- Checks a signature of a message. -/
def verifySignature (key : PublicKey) (message signature : Bytes) : Except SignatureError Unit :=
  match Octets.ofBytes? 64 signature with
  | none => .error (.verificationFailed .wrongLength)
  | some s =>
    match key.check message s with
    | .ok () => .ok ()
    | .error reason => .error (.verificationFailed (.rejected reason))

/-! ## 4. How keys are shown -/

/-- A public key by its first four octets. -/
def showPublicKey (octets : Octets 32) : String :=
  s!"PublicKey({Hex.encode (octets.toList.take 4)}...)"

/-- A key pair; the secret half is never shown. -/
def KeyPair.show (pair : KeyPair) : String :=
  "KeyPair \x7b public: " ++ showPublicKey pair.publicOctets ++
    ", secret: SecretKey \x7b <redacted> \x7d \x7d"

end SignedRecords
