import SignedRecords.Republish.Basic
import SignedRecords.Service.Basic
import SignedRecords.Time.Deadline

/-!
# The service of a node that knows no other

Without nodes to ask, a lookup fails at once and so does every put, and what is published is kept
in the store alone. Calls then run in one piece. The one thing that can go wrong beyond what the
service words is a lifetime that ends at a moment the clock cannot tell: then the call breaks
down, but what the store has taken by then stays. A put in the background breaks down alike when
its deadline cannot be told, and nobody hears of it.
-/

namespace SignedRecords

/-- Whether the cache can write an entry, or words why not. -/
def TtlCache.canWrite (c : TtlCache) (key : String) (value : Bytes) (now : Nat) : Bool :=
  c.maxEntryBytes < entrySize key value || (deadline? now c.ttl).isSome

namespace Service

/-- Whether a reply can be given: the caches can write what comes with it. -/
def canReply (s : Service) (now : Nat) (id : String) : Reply → Option Response → Bool
  | .found response, _ => s.responses.canWrite id response.toBytes now
  | .notFound, _ => s.negative.canWrite id missingMark now
  | .published, some response => s.responses.canWrite id response.toBytes now
  | _, _ => true

/-- Ends a call that went as far as the store; none says that it broke down. -/
def conclude (s : Service) (now : Nat) (id : String) (published : Option Response)
    (piece : Service × CallStep × Option Record) : Service × Option Reply :=
  match piece with
  | (after, .replies reply, _) =>
    if s.canReply now id reply published then (after, some reply)
    else ({ s with store := after.store }, none)
  | (after, .waits _, _) => (after, none)

/-- Publishes a record; no reply says that the call broke down. -/
def publishAlone (s : Service) (now : Nat) (id : String) (record : Record) :
    Service × Option Reply :=
  match s.publish now id record with
  | (s, .waits (.write id record)) =>
    s.conclude now id (some record.response) (s.written now id record .proceeds)
  | (s, .replies reply) => (s, some reply)
  | (s, _) => (s, none)

/-- Looks for an id; no reply says that the call broke down. -/
def getAlone (s : Service) (now : Nat) (id : String) : Service × Option Reply :=
  match s.get now id with
  | (s, .waits (.lookup id)) =>
    let (s, _) := s.lookedUp now id (.answers (.error .noNodes))
    s.conclude now id none (s.readBack now id .proceeds)
  | (s, .replies reply) => (s, some reply)
  | (s, _) => (s, none)

end Service

/-- How a put in the background ends: there is nobody to put to. -/
def putAlone (now timeout : Nat) : PutEnd :=
  match deadline? now timeout with
  | some _ => .failed
  | none => .lost

end SignedRecords
