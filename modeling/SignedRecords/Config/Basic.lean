import SignedRecords.About
import SignedRecords.Dht.Config
import SignedRecords.Net.Address
import SignedRecords.Service.Config
import SignedRecords.Text.Blank

/-!
# The configuration

What a user can set, with the usual values, and what follows from it for the other parts: the
settings of the DHT and of the service, the address to listen at, and the place of the database.
Peers to start from can also be given as one text, separated by commas.
-/

namespace SignedRecords

/-! ## 1. Sections -/

/-- What is set of the DHT. -/
structure DhtSection where
  listenAddr : String
  bootstrapPeers : List String
  k : UInt64
  alpha : UInt64
  queryTimeoutMs : UInt64

/-- What is set of the caches. -/
structure CacheSection where
  ttlSecs : UInt64
  sizeLimitMb : UInt64
  negativeTtlSecs : UInt64

/-- What is set of republishing. -/
structure RepublishSection where
  cron : String
  batchSize : UInt64
  maxAttempts : UInt32
  putTimeoutSecs : UInt64

/-- What is set of the store. -/
structure StorageSection where
  dataDir : String

/-- A configuration. -/
structure Config where
  dht : DhtSection
  cache : CacheSection
  republish : RepublishSection
  storage : StorageSection
  logLevel : String

/-- The usual section. -/
def DhtSection.standard : DhtSection :=
  { listenAddr := "0.0.0.0:6881"
    bootstrapPeers := defaultBootstrapPeers
    k := 8
    alpha := 15
    queryTimeoutMs := 2000 }

/-- The usual section. -/
def CacheSection.standard : CacheSection :=
  { ttlSecs := 600, sizeLimitMb := 500, negativeTtlSecs := 30 }

/-- The usual section. -/
def RepublishSection.standard : RepublishSection :=
  { cron := "0 */3 * * *", batchSize := 1000, maxAttempts := 3, putTimeoutSecs := 10 }

/-- The usual section. -/
def StorageSection.standard : StorageSection := { dataDir := "data" }

namespace Config

/-- The usual configuration. -/
def standard : Config :=
  { dht := .standard
    cache := .standard
    republish := .standard
    storage := .standard
    logLevel := "info" }

/-! ## 2. Peers to start from -/

/-- The peers of a text: what stands between commas, without blanks around it. -/
def peersOf (text : String) : List String :=
  ((text.splitOn ",").map Blank.trim).filter fun peer => !peer.isEmpty

/-- Takes the peers of a text, if there are any. -/
def withPeers (c : Config) (text : String) : Config :=
  match peersOf text with
  | [] => c
  | peers => { c with dht := { c.dht with bootstrapPeers := peers } }

/-! ## 3. What follows for the other parts -/

/-- A file in a directory. -/
def inDirectory (directory file : String) : String :=
  if directory.isEmpty || directory.endsWith "/" then directory ++ file
  else directory ++ "/" ++ file

/-- Where the records are kept. -/
def databasePath (c : Config) : String := inDirectory c.storage.dataDir "records.db"

/-- Where to listen. -/
def listenAddress? (c : Config) : Option Address := Address.read? c.dht.listenAddr

/-- The settings of the DHT. -/
def dhtConfig (c : Config) : DhtConfig :=
  { DhtConfig.standard with
    k := max c.dht.k.toNat 1
    alpha := max c.dht.alpha.toNat 1
    queryTimeout := c.dht.queryTimeoutMs.toNat }

/-- A number of mebibytes in octets, at most the largest word. -/
def mebibytes (n : UInt64) : Nat := min (n.toNat * (1024 * 1024)) (UInt64.size - 1)

/-- The settings of the service. -/
def serviceConfig (c : Config) : ServiceConfig :=
  let putTimeout := 1000 * c.republish.putTimeoutSecs.toNat
  { ServiceConfig.standard with
    cacheTtl := 1000 * c.cache.ttlSecs.toNat
    cacheSize := mebibytes c.cache.sizeLimitMb
    negativeTtl := 1000 * c.cache.negativeTtlSecs.toNat
    putTimeout
    cron := c.republish.cron
    republish :=
      { batchSize := max c.republish.batchSize.toNat 1
        maxAttempts := max c.republish.maxAttempts.toNat 1
        putTimeout } }

end Config

end SignedRecords
