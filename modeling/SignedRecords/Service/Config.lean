import SignedRecords.Republish.Config

/-!
# Settings of the record service

Times are in milliseconds, sizes in octets.
-/

namespace SignedRecords

/-- The settings of the record service. -/
structure ServiceConfig where
  /-- How long responses stay in the cache. -/
  cacheTtl : Nat
  /-- The most octets of the response cache. -/
  cacheSize : Nat
  /-- How long an id stays marked as missing. -/
  negativeTtl : Nat
  /-- How long a put in the background may take. -/
  putTimeout : Nat
  /-- How long a lookup in the DHT may take. -/
  getTimeout : Nat
  /-- How long one call of the store may take. -/
  storeTimeout : Nat
  /-- When the store is republished. -/
  cron : String
  republish : RepublishConfig
  deriving DecidableEq, Repr

namespace ServiceConfig

/-- The usual settings. -/
def standard : ServiceConfig :=
  { cacheTtl := 600000
    cacheSize := 500 * 1024 * 1024
    negativeTtl := 30000
    putTimeout := 10000
    getTimeout := 10000
    storeTimeout := 5000
    cron := "0 */3 * * *"
    republish := .standard }

/-- The most octets of one cache entry: an id and a whole record fit. -/
def maxCacheEntry : Nat := 2048

/-- The most octets of the cache of missing ids: a sixteenth of the other one, but never so few
    that it forgets at once. -/
def negativeSize (c : ServiceConfig) : Nat := max (c.cacheSize / 16) (64 * 1024)

end ServiceConfig

end SignedRecords
