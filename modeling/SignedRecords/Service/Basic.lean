import SignedRecords.Cache.Response
import SignedRecords.Dht.Client.Basic
import SignedRecords.Republish.Report
import SignedRecords.Service.Config
import SignedRecords.Service.Error
import SignedRecords.Store.Basic

/-!
# The record service

The service publishes records and finds them by their ids. A record is published when the store
has taken it; the DHT gets it in the background. An id is looked for in the cache, in the DHT and
in the store, in this order, and what is found in the store is put into the DHT again. An id that
is nowhere is marked as missing for a while and refused meanwhile.

All ids are made canonical first; caches and store know only the canonical ones.

A call runs in pieces: `publish` and `get` go up to the first thing that has to be waited for, and
`written`, `lookedUp` and `readBack` go on from there. Between the pieces of one call there may be
pieces of others.
-/

namespace SignedRecords

/-- The record service. -/
structure Service where
  config : ServiceConfig
  store : Store
  /-- Responses by id. -/
  responses : TtlCache
  /-- The ids that are marked as missing. -/
  negative : TtlCache
  /-- The puts in the background that were acknowledged. -/
  putsSucceeded : Nat
  /-- The puts in the background that were not. -/
  putsFailed : Nat
  lastReport : Option RepublishReport

/-- How a call ends. -/
inductive Reply where
  | published
  | found (response : Response)
  | notFound
  | failed (error : ServiceError)
  deriving DecidableEq

/-- What a call waits for. -/
inductive Waiting where
  /-- The store writes the record of an id. -/
  | write (id : String) (record : Record)
  /-- The DHT is searched for an id. -/
  | lookup (id : String)
  /-- The store reads the record of an id. -/
  | read (id : String)
  deriving DecidableEq

/-- A piece of a call ends with the call or with something to wait for. -/
inductive CallStep where
  | replies (reply : Reply)
  | waits (for' : Waiting)
  deriving DecidableEq

/-- What becomes of a call of the store. -/
inductive StoreTurn where
  /-- The store does it now. -/
  | proceeds
  /-- The store fails before it has done anything. -/
  | fails (reason : String)
  /-- The time is up, and the store will not do it. -/
  | timesOut
  deriving DecidableEq

/-- What becomes of a lookup. -/
inductive LookupTurn where
  | answers (result : Except TransportError FullGet)
  /-- The time is up. -/
  | timesOut

/-- A call of the store, when its turn comes. -/
def StoreTurn.run {α : Type} (turn : StoreTurn) (call : Except StoreError α) :
    Except StoreError α :=
  match turn with
  | .proceeds => call
  | .fails reason => .error (.unavailable reason)
  | .timesOut => .error (.unavailable "storage call timed out")

/-- Reads an id: the key that it names, and its canonical form. -/
def readId (id : String) : Except ServiceError (Octets 32 × String) :=
  match readRecordId id with
  | .ok key => .ok (key, recordId key)
  | .error e => .error (.malformedId e)

namespace Service

/-- A service whose caches are empty. -/
def fresh (config : ServiceConfig) (store : Store) : Service :=
  { config
    store
    responses := .empty config.cacheTtl config.cacheSize ServiceConfig.maxCacheEntry
    negative := .empty config.negativeTtl config.negativeSize ServiceConfig.maxCacheEntry
    putsSucceeded := 0
    putsFailed := 0
    lastReport := none }

/-! ## 1. Caches -/

/-- Caches a response, if it fits. -/
def cache (s : Service) (id : String) (response : Response) (now : Nat) : Service :=
  match s.responses.setResponse id response now with
  | .ok responses => { s with responses }
  | .error _ => s

/-- The cached response of an id; one that does not read is none. -/
def cached (s : Service) (id : String) (now : Nat) : Service × Option Response :=
  let (responses, found) := s.responses.response id now
  ({ s with responses }, match found with
    | .ok response => response
    | .error _ => none)

/-- Whether an id is marked as missing. -/
def isMissing (s : Service) (id : String) (now : Nat) : Service × Bool :=
  let (negative, missing) := s.negative.isMissing id now
  ({ s with negative }, missing)

/-- Marks an id as missing. -/
def markMissing (s : Service) (id : String) (now : Nat) : Service :=
  match s.negative.markMissing id now with
  | .ok negative => { s with negative }
  | .error _ => s

/-! ## 2. Publishing -/

/-- Begins to publish a record under an id. A record whose response is cached has been published
    before. -/
def publish (s : Service) (now : Nat) (id : String) (record : Record) : Service × CallStep :=
  match readId id with
  | .error e => (s, .replies (.failed e))
  | .ok (key, id) =>
    if key ≠ record.key then (s, .replies (.failed (.otherRecord id)))
    else
      match record.validate with
      | .error e => (s, .replies (.failed (.invalidRecord e)))
      | .ok () =>
        let (s, cached) := s.cached id now
        if cached = some record.response then (s, .replies .published)
        else (s, .waits (.write id record))

/-- Goes on when the store writes; answers the record that is to be put. -/
def written (s : Service) (now : Nat) (id : String) (record : Record) (turn : StoreTurn) :
    Service × CallStep × Option Record :=
  match turn.run (s.store.write record) with
  | .error e => (s, .replies (.failed (.store e)), none)
  | .ok store =>
    let s := { s with store }.cache id record.response now
    ({ s with negative := s.negative.remove id }, .replies .published, some record)

/-! ## 3. Finding -/

/-- Begins to look for an id. -/
def get (s : Service) (now : Nat) (id : String) : Service × CallStep :=
  match readId id with
  | .error e => (s, .replies (.failed e))
  | .ok (_, id) =>
    let (s, missing) := s.isMissing id now
    if missing then (s, .replies (.failed (.rateLimited id)))
    else
      let (s, cached) := s.cached id now
      match cached with
      | some response => (s, .replies (.found response))
      | none => (s, .waits (.lookup id))

/-- Goes on when the search of the DHT has ended. Only an item with an owner counts. -/
def lookedUp (s : Service) (now : Nat) (id : String) (turn : LookupTurn) : Service × CallStep :=
  match turn with
  | .answers (.ok full) =>
    if full.isMutable then (s.cache id full.response now, .replies (.found full.response))
    else (s, .waits (.read id))
  | _ => (s, .waits (.read id))

/-- Goes on when the store reads; answers the record that is to be put. -/
def readBack (s : Service) (now : Nat) (id : String) (turn : StoreTurn) :
    Service × CallStep × Option Record :=
  match turn.run (s.store.read id) with
  | .error e => (s, .replies (.failed (.store e)), none)
  | .ok none => (s.markMissing id now, .replies .notFound, none)
  | .ok (some record) =>
    (s.cache id record.response now, .replies (.found record.response), some record)

/-! ## 4. Puts in the background -/

/-- A put in the background has ended. -/
def putEnded (s : Service) (acknowledged : Bool) : Service :=
  if acknowledged then { s with putsSucceeded := s.putsSucceeded + 1 }
  else { s with putsFailed := s.putsFailed + 1 }

end Service

end SignedRecords
