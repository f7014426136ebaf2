import SignedRecords.Dht.Item
import SignedRecords.Dht.Peer

/-!
# Messages between nodes

Four requests and their four responses. Every message names its sender and carries the number by
which a response is matched to its request.
-/

namespace SignedRecords

/-- A message between two nodes. -/
inductive Message where
  /-- Asks whether a node is there. -/
  | ping (sender : Peer) (id : UInt64)
  /-- Answers a ping. -/
  | pong (sender : Peer) (id : UInt64)
  /-- Asks for the nodes nearest to a target. -/
  | findNode (sender : Peer) (target : NodeId) (id : UInt64)
  /-- Answers with nodes. -/
  | foundNodes (sender : Peer) (nodes : List Peer) (id : UInt64)
  /-- Asks for the item of a target; items not above a known sequence number are left out. -/
  | get (sender : Peer) (target : NodeId) (known : Option Sequence) (id : UInt64)
  /-- Answers with an item, if there is one, and with nodes nearer to the target. -/
  | got (sender : Peer) (item : Option Item) (nodes : List Peer) (id : UInt64)
  /-- Asks to keep an item. -/
  | put (sender : Peer) (item : Item) (id : UInt64)
  /-- Answers whether the item is kept, and why not. -/
  | stored (sender : Peer) (success : Bool) (error : Option String) (id : UInt64)
  deriving DecidableEq

namespace Message

/-- Who sent the message. -/
def sender : Message → Peer
  | .ping s _ | .pong s _ | .findNode s _ _ | .foundNodes s _ _ | .get s _ _ _ | .got s _ _ _
  | .put s _ _ | .stored s _ _ _ => s

/-- The number of the message. -/
def id : Message → UInt64
  | .ping _ i | .pong _ i | .findNode _ _ i | .foundNodes _ _ i | .get _ _ _ i | .got _ _ _ i
  | .put _ _ i | .stored _ _ _ i => i

/-- The message under another number. -/
def withId (m : Message) (i : UInt64) : Message :=
  match m with
  | .ping s _ => .ping s i
  | .pong s _ => .pong s i
  | .findNode s t _ => .findNode s t i
  | .foundNodes s ns _ => .foundNodes s ns i
  | .get s t k _ => .get s t k i
  | .got s it ns _ => .got s it ns i
  | .put s it _ => .put s it i
  | .stored s ok e _ => .stored s ok e i

/-- Whether the message answers another one. -/
def isResponse : Message → Bool
  | .pong .. | .foundNodes .. | .got .. | .stored .. => true
  | _ => false

@[simp] theorem id_withId (m : Message) (i : UInt64) : (m.withId i).id = i := by
  cases m <;> rfl

@[simp] theorem isResponse_withId (m : Message) (i : UInt64) :
    (m.withId i).isResponse = m.isResponse := by
  cases m <;> rfl

end Message

end SignedRecords
