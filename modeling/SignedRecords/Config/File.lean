import SignedRecords.Config.Basic
import SignedRecords.Json.Printer
import SignedRecords.Json.Reader
import SignedRecords.Text.Utf8

/-!
# The configuration file

A configuration as a JSON document. Every section and every member may be missing and then has its
usual value; members with other names are passed over. Numbers have to fit their words.
-/

namespace SignedRecords

/-- Why there is no configuration, or not the part of it that is asked for. -/
inductive ConfigError where
  /-- The file is no text. -/
  | notText
  /-- The text is no configuration. -/
  | malformed
  /-- The address to listen at is none. -/
  | listenAddress
  deriving DecidableEq, Repr

/-- The wording of a configuration error; what is wrong inside a document is not worded. -/
def ConfigError.message : ConfigError → String
  | .notText => "IO error: stream did not contain valid UTF-8"
  | .malformed => "Parse error"
  | .listenAddress => "Invalid value for dht.listen_addr: invalid socket address syntax"

/-- The wordings of the causes behind a configuration error. -/
def ConfigError.causes : ConfigError → List String
  | .notText => ["stream did not contain valid UTF-8"]
  | _ => []

/-! ## 1. Reading -/

open Json (orElse)

/-- A word of 64 bits. -/
def word64? (j : Json) : Option UInt64 := (j.natBelow? UInt64.size).map UInt64.ofNat

/-- A word of 32 bits. -/
def word32? (j : Json) : Option UInt32 := (j.natBelow? UInt32.size).map UInt32.ofNat

/-- Reads a section. -/
def DhtSection.ofJson? (j : Json) : Option DhtSection := do
  let usual := DhtSection.standard
  match ← j.members? ["listen_addr", "bootstrap_peers", "k", "alpha", "query_timeout_ms"] with
  | [addr, peers, k, alpha, timeout] =>
    return {
      listenAddr := ← orElse Json.text? usual.listenAddr addr
      bootstrapPeers := ← orElse Json.texts? usual.bootstrapPeers peers
      k := ← orElse word64? usual.k k
      alpha := ← orElse word64? usual.alpha alpha
      queryTimeoutMs := ← orElse word64? usual.queryTimeoutMs timeout }
  | _ => none

/-- Reads a section. -/
def CacheSection.ofJson? (j : Json) : Option CacheSection := do
  let usual := CacheSection.standard
  match ← j.members? ["ttl_secs", "size_limit_mb", "negative_ttl_secs"] with
  | [ttl, size, negative] =>
    return {
      ttlSecs := ← orElse word64? usual.ttlSecs ttl
      sizeLimitMb := ← orElse word64? usual.sizeLimitMb size
      negativeTtlSecs := ← orElse word64? usual.negativeTtlSecs negative }
  | _ => none

/-- Reads a section. -/
def RepublishSection.ofJson? (j : Json) : Option RepublishSection := do
  let usual := RepublishSection.standard
  match ← j.members? ["cron", "batch_size", "max_attempts", "put_timeout_secs"] with
  | [cron, size, attempts, timeout] =>
    return {
      cron := ← orElse Json.text? usual.cron cron
      batchSize := ← orElse word64? usual.batchSize size
      maxAttempts := ← orElse word32? usual.maxAttempts attempts
      putTimeoutSecs := ← orElse word64? usual.putTimeoutSecs timeout }
  | _ => none

/-- Reads a section. -/
def StorageSection.ofJson? (j : Json) : Option StorageSection := do
  match ← j.members? ["data_dir"] with
  | [dir] => return { dataDir := ← orElse Json.text? StorageSection.standard.dataDir dir }
  | _ => none

namespace Config

/-- Reads a configuration. -/
def ofJson? (j : Json) : Option Config := do
  match ← j.members? ["dht", "cache", "republish", "storage", "log_level"] with
  | [dht, cache, republish, storage, level] =>
    return {
      dht := ← orElse DhtSection.ofJson? .standard dht
      cache := ← orElse CacheSection.ofJson? .standard cache
      republish := ← orElse RepublishSection.ofJson? .standard republish
      storage := ← orElse StorageSection.ofJson? .standard storage
      logLevel := ← orElse Json.text? standard.logLevel level }
  | _ => none

/-- The configuration of a file; without a file, the usual one. -/
def load : Option Bytes → Except ConfigError Config
  | none => .ok standard
  | some file =>
    match Utf8.decode file with
    | .error _ => .error .notText
    | .ok text =>
      match (Json.read? text).bind ofJson? with
      | some c => .ok c
      | none => .error .malformed

/-- Where to listen. -/
def listenAddress (c : Config) : Except ConfigError Address :=
  match c.listenAddress? with
  | some a => .ok a
  | none => .error .listenAddress

/-! ## 2. Writing -/

/-- The JSON form of a natural number. -/
def numberJson (n : Nat) : Json := .number (some n)

/-- The JSON form of a configuration, with all its members. -/
def toJson (c : Config) : Json :=
  .ofMembers
    [("dht", .ofMembers
      [("listen_addr", .ofText c.dht.listenAddr),
       ("bootstrap_peers", .list (c.dht.bootstrapPeers.map .ofText)),
       ("k", numberJson c.dht.k.toNat),
       ("alpha", numberJson c.dht.alpha.toNat),
       ("query_timeout_ms", numberJson c.dht.queryTimeoutMs.toNat)]),
     ("cache", .ofMembers
      [("ttl_secs", numberJson c.cache.ttlSecs.toNat),
       ("size_limit_mb", numberJson c.cache.sizeLimitMb.toNat),
       ("negative_ttl_secs", numberJson c.cache.negativeTtlSecs.toNat)]),
     ("republish", .ofMembers
      [("cron", .ofText c.republish.cron),
       ("batch_size", numberJson c.republish.batchSize.toNat),
       ("max_attempts", numberJson c.republish.maxAttempts.toNat),
       ("put_timeout_secs", numberJson c.republish.putTimeoutSecs.toNat)]),
     ("storage", .ofMembers [("data_dir", .ofText c.storage.dataDir)]),
     ("log_level", .ofText c.logLevel)]

/-- The text of the configuration file. -/
def save (c : Config) : String := c.toJson.print

end Config

end SignedRecords
