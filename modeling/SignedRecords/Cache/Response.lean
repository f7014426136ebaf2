import SignedRecords.Cache.TtlCache
import SignedRecords.Record.Response

/-!
# What the service caches

Two uses of a cache: responses by record id, in their wire form, and ids that were recently not
found, where being there is all that counts.
-/

namespace SignedRecords

/-- What a mark in the cache of missing ids holds. -/
def missingMark : Bytes := [0]

namespace TtlCache

/-- The live response of an id. Octets that are no response are dropped, and the answer says what
    is wrong with them. -/
def response (c : TtlCache) (id : String) (now : Nat) :
    TtlCache × Except RecordError (Option Response) :=
  match c.get id now with
  | (c, none) => (c, .ok none)
  | (c, some bs) =>
    match Response.ofBytes bs with
    | .ok r => (c, .ok (some r))
    | .error e => (c.remove id, .error e)

/-- Writes the response of an id. -/
def setResponse (c : TtlCache) (id : String) (r : Response) (now : Nat) :
    Except CacheLimit TtlCache :=
  c.set id r.toBytes now

/-- Whether an id is marked as missing. -/
def isMissing (c : TtlCache) (id : String) (now : Nat) : TtlCache × Bool :=
  let (c, value) := c.get id now
  (c, value.isSome)

/-- Marks an id as missing. -/
def markMissing (c : TtlCache) (id : String) (now : Nat) : Except CacheLimit TtlCache :=
  c.set id missingMark now

end TtlCache

/-- Why the caches of the service refuse. -/
inductive CacheError where
  | limit (limit : CacheLimit)
  /-- A cached value is no response. -/
  | corrupt (error : RecordError)
  deriving DecidableEq, Repr

/-- The wording of a refusal. -/
def CacheError.message : CacheError → String
  | .limit l => l.message
  | .corrupt e => s!"Cached value is corrupt: {e.message}"

end SignedRecords
