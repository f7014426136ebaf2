import SignedRecords.Bytes.Fixed

/-!
# SHA-1

The 160-bit digest that places items in the keyspace. A message is padded to whole blocks of 64
octets, each block is spread over eighty words, and eighty rounds fold it into five words of
state.
-/

namespace SignedRecords.Sha1

/-! ## 1. Blocks -/

/-- The message, a one bit, zeros, and the length in bits: a multiple of 64 octets. -/
def padded (message : Bytes) : Bytes :=
  let n := message.length
  message ++ 0x80 :: List.replicate ((119 - n % 64) % 64) 0 ++ Bytes.bigEndian 8 (8 * n)

/-- Words of four octets, most significant first. -/
def words : Bytes → List UInt32
  | a :: b :: c :: d :: rest => UInt32.ofNat (Bytes.ofBigEndian [a, b, c, d]) :: words rest
  | _ => []

/-- A word turned left. -/
def rotate (x : UInt32) (n : UInt32) : UInt32 := (x <<< n) ||| (x >>> (32 - n))

/-- Adds `n` words to the schedule, each one from four before it. -/
def spread : Nat → Array UInt32 → Array UInt32
  | 0, w => w
  | n + 1, w =>
    let at' (back : Nat) : UInt32 := w.getD (w.size - back) 0
    spread n (w.push (rotate (at' 3 ^^^ at' 8 ^^^ at' 14 ^^^ at' 16) 1))

/-! ## 2. Rounds -/

/-- The five words of state. -/
structure State where
  a : UInt32
  b : UInt32
  c : UInt32
  d : UInt32
  e : UInt32

/-- The state before the first block. -/
def State.start : State := ⟨0x67452301, 0xEFCDAB89, 0x98BADCFE, 0x10325476, 0xC3D2E1F0⟩

/-- Mixes three words; the mixing and its constant change every twenty rounds. -/
def mix (round : Nat) (b c d : UInt32) : UInt32 × UInt32 :=
  if round < 20 then ((b &&& c) ||| (~~~b &&& d), 0x5A827999)
  else if round < 40 then (b ^^^ c ^^^ d, 0x6ED9EBA1)
  else if round < 60 then ((b &&& c) ||| (b &&& d) ||| (c &&& d), 0x8F1BBCDC)
  else (b ^^^ c ^^^ d, 0xCA62C1D6)

/-- One round with one word of the schedule. -/
def State.round (s : State) (round : Nat) (word : UInt32) : State :=
  let (f, k) := mix round s.b s.c s.d
  ⟨rotate s.a 5 + f + s.e + k + word, s.a, rotate s.b 30, s.c, s.d⟩

/-- The rounds from number `i` on. -/
def State.rounds (s : State) (i : Nat) : List UInt32 → State
  | [] => s
  | w :: rest => (s.round i w).rounds (i + 1) rest

/-- Folds one block of words into the state. -/
def State.block (s : State) (ws : List UInt32) : State :=
  let t := s.rounds 0 (spread 64 ws.toArray).toList
  ⟨s.a + t.a, s.b + t.b, s.c + t.c, s.d + t.d, s.e + t.e⟩

/-- Folds `n` blocks into the state. -/
def State.blocks (s : State) : Nat → List UInt32 → State
  | 0, _ => s
  | n + 1, ws => (s.block (ws.take 16)).blocks n (ws.drop 16)

/-! ## 3. The digest -/

/-- The words of the state as octets. -/
def State.octets (s : State) : Bytes :=
  [s.a, s.b, s.c, s.d, s.e].flatMap fun w => Bytes.bigEndian 4 w.toNat

/-- The state after all blocks of a message. -/
def State.ofMessage (message : Bytes) : State :=
  let ws := words (padded message)
  State.start.blocks (ws.length / 16) ws

/-- The digest of a message. -/
def digest (message : Bytes) : Octets 20 :=
  ⟨(State.ofMessage message).octets, by simp [State.octets]⟩

end SignedRecords.Sha1
