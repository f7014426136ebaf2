import SignedRecords.Cli.Session
import SignedRecords.Proofs.NeutralKey
import SignedRecords.Proofs.ServicePieces
import SignedRecords.Proofs.Stores

/-!
# Deadlines that cannot be told

The lifetimes and waits of a configuration are any number of seconds that a word of 64 bits holds,
and the clock holds half as many. Each is added to a reading of the clock as it is, so the sum can
be told exactly if the seconds of both stay below the end of the clock. For the commands that
publish a record and look for one, this says exactly when they break down and at which sum, and
what the store holds then.

Main statement: `Cli.deadlines_in_runs`.
-/

namespace SignedRecords

/-! ## 1. What can be told -/

/-- A deadline some seconds after a reading can be told if they end before the clock does. -/
theorem deadline?_eq {now seconds : Nat} :
    deadline? now (1000 * seconds) =
      if now / 1000 + seconds < clockEnd then some (now + 1000 * seconds) else none := by
  have hsum : (now + 1000 * seconds) / 1000 = now / 1000 + seconds :=
    Nat.add_mul_div_left now seconds (by decide)
  unfold deadline? tellable
  rw [hsum]
  simp only [decide_eq_true_iff]

theorem isSome_deadline? {now seconds : Nat} :
    (deadline? now (1000 * seconds)).isSome = true ↔ now / 1000 + seconds < clockEnd := by
  rw [deadline?_eq]
  by_cases h : now / 1000 + seconds < clockEnd <;> simp [h]

/-- A put whose deadline cannot be told is lost. -/
theorem putAlone_eq {now seconds : Nat} :
    putAlone now (1000 * seconds) =
      if now / 1000 + seconds < clockEnd then .failed else .lost := by
  simp only [← isSome_deadline?, putAlone]
  rcases deadline? now (1000 * seconds) with _ | deadline <;> rfl

namespace Cli

/-- The first sum that cannot be told is the one at which the wait breaks down. -/
theorem announcementEnd_eq {now seconds : Nat} :
    announcementEnd now (1000 * seconds) =
      if waitLimit ≤ seconds + 1 then .error .wait
      else if clockEnd ≤ now / 1000 + (seconds + 1) then .error .waitEnd
      else .ok (now + 1000 * (seconds + 1)) := by
  have hboth : waitBoth? (1000 * seconds) 1000 =
      if seconds + 1 < waitLimit then some (1000 * (seconds + 1)) else none := by
    rw [waitBoth?, show 1000 * seconds + 1000 = 1000 * (seconds + 1) from rfl,
      Nat.mul_div_cancel_left _ (by decide)]
  rw [announcementEnd, hboth]
  by_cases hwait : seconds + 1 < waitLimit
  · rw [if_pos hwait, if_neg (Nat.not_le.2 hwait)]
    by_cases hend : now / 1000 + (seconds + 1) < clockEnd
    · simp only [deadline?_eq, if_pos hend, if_neg (Nat.not_le.2 hend)]
    · simp only [deadline?_eq, if_neg hend, if_pos (Nat.not_lt.1 hend)]
  · rw [if_neg hwait, if_pos (Nat.not_lt.1 hwait)]

theorem announcementEnd_ok_iff {now seconds : Nat} :
    (∃ deadline, announcementEnd now (1000 * seconds) = .ok deadline) ↔
      now / 1000 + (seconds + 1) < clockEnd := by
  have hends : clockEnd ≤ waitLimit := by decide
  rw [announcementEnd_eq]
  constructor
  · rintro ⟨deadline, h⟩
    split at h
    · cases h
    · split at h
      · cases h
      · rename_i hend
        exact Nat.not_le.1 hend
  · intro h
    exact ⟨_, by rw [if_neg (by omega), if_neg (Nat.not_le.2 h)]⟩

end Cli

/-- Every moment that the settings ask for can be told at a reading of the clock. -/
structure Config.TellsDeadlines (c : Config) (now : Nat) : Prop where
  cached : (deadline? now c.serviceConfig.cacheTtl).isSome = true
  missing : (deadline? now c.serviceConfig.negativeTtl).isSome = true
  put : putAlone now c.serviceConfig.putTimeout ≠ .lost
  announcement : ∃ deadline, Cli.announcementEnd now c.serviceConfig.putTimeout = .ok deadline

namespace Config

variable {c : Config}

theorem putTimeout_eq : c.serviceConfig.putTimeout = 1000 * c.republish.putTimeoutSecs.toNat := rfl

theorem tellsDeadlines_iff {now : Nat} :
    c.TellsDeadlines now ↔ now / 1000 + c.cache.ttlSecs.toNat < clockEnd ∧
      now / 1000 + c.cache.negativeTtlSecs.toNat < clockEnd ∧
      now / 1000 + (c.republish.putTimeoutSecs.toNat + 1) < clockEnd := by
  constructor
  · intro h
    exact ⟨isSome_deadline?.1 h.cached, isSome_deadline?.1 h.missing,
      Cli.announcementEnd_ok_iff.1 h.announcement⟩
  · rintro ⟨hcached, hmissing, hannouncement⟩
    refine ⟨isSome_deadline?.2 hcached, isSome_deadline?.2 hmissing, fun hlost => ?_,
      Cli.announcementEnd_ok_iff.2 hannouncement⟩
    rw [putTimeout_eq, putAlone_eq, if_pos (by omega)] at hlost
    cases hlost

end Config

/-! ## 2. What the caches have to write -/

namespace Config

variable {c : Config} {now : Nat}

/-- The response cache of a configuration. -/
def responses (c : Config) : TtlCache :=
  .empty c.serviceConfig.cacheTtl c.serviceConfig.cacheSize ServiceConfig.maxCacheEntry

/-- The cache of missing ids of a configuration. -/
def negative (c : Config) : TtlCache :=
  .empty c.serviceConfig.negativeTtl c.serviceConfig.negativeSize ServiceConfig.maxCacheEntry

/-- The response of a valid record is cached unless no room is configured for any; its expiry then
    has to be told. -/
theorem canWrite_response {r : Record} (h : r.validate = .ok ()) :
    c.responses.canWrite r.id r.response.toBytes now = true ↔
      c.cache.sizeLimitMb = 0 ∨ now / 1000 + c.cache.ttlSecs.toNat < clockEnd := by
  have hvalue : r.value.length ≤ 1000 := (Record.validate_eq_ok.1 h).1
  have hsize : entrySize r.id r.response.toBytes = 124 + r.value.length := by
    rw [entrySize, Record.id, utf8ByteSize_recordId, Response.length_toBytes]
    simp only [headerSize, Record.response]
    omega
  have hroom : c.responses.maxEntryBytes < 124 + r.value.length ↔ c.cache.sizeLimitMb = 0 := by
    have hmax : c.responses.maxEntryBytes =
        min 2048 (min (c.cache.sizeLimitMb.toNat * 1048576) 18446744073709551615) := rfl
    rw [hmax, ← UInt64.toNat_inj]
    simp only [UInt64.toNat_zero]
    omega
  rw [TtlCache.canWrite, hsize, Bool.or_eq_true, decide_eq_true_iff, hroom]
  exact or_congr_right isSome_deadline?

/-- A mark always fits. -/
theorem canWrite_mark (key : Octets 32) :
    c.negative.canWrite (recordId key) missingMark now = true ↔
      now / 1000 + c.cache.negativeTtlSecs.toNat < clockEnd := by
  have hroom : ¬ c.negative.maxEntryBytes < entrySize (recordId key) missingMark := by
    have hmax : c.negative.maxEntryBytes = min 2048 (max (c.serviceConfig.cacheSize / 16) 65536) :=
      rfl
    rw [hmax, entrySize, utf8ByteSize_recordId]
    simp only [missingMark, List.length_singleton]
    omega
  rw [TtlCache.canWrite, Bool.or_eq_true, decide_eq_true_iff, or_iff_right hroom]
  exact isSome_deadline?

end Config

/-! ## 3. Calls of a node alone -/

namespace Service

variable {config : ServiceConfig} {store : Store} {now : Nat} {record : Record}

theorem cached_fresh (id : String) :
    (fresh config store).cached id now = (fresh config store, none) := rfl

theorem publish_fresh (h : record.validate = .ok ()) :
    (fresh config store).publish now record.id record =
      (fresh config store, .waits (.write record.id record)) := by
  have hid : readId record.id = .ok (record.key, record.id) := readId_recordId record.key
  simp only [publish, hid, h, ne_eq, not_true_eq_false, if_false, cached_fresh, reduceCtorEq]

/-- A call that breaks down after its reply keeps what the store has. -/
theorem conclude_replies (s after : Service) (id : String) (published : Option Response)
    (reply : Reply) (put : Option Record) :
    (s.conclude now id published (after, .replies reply, put)).1.store = after.store ∧
      (s.conclude now id published (after, .replies reply, put)).2 =
        if s.canReply now id reply published then some reply else none := by
  simp only [conclude]
  by_cases h : s.canReply now id reply published = true
  · simp only [h, if_true, and_self]
  · simp only [h, if_false, and_self, Bool.false_eq_true]

theorem publishAlone_invalid {e : RecordError} (h : record.validate = .error e) :
    ((fresh config store).publishAlone now record.id record).2 =
      some (.failed (.invalidRecord e)) := by
  have hid : readId record.id = .ok (record.key, record.id) := readId_recordId record.key
  simp only [publishAlone, publish, hid, h, ne_eq, not_true_eq_false, if_false]

theorem publishAlone_refused (h : record.validate = .ok ()) {e : StoreError}
    (hwrite : store.write record = .error e) :
    ((fresh config store).publishAlone now record.id record).2 = some (.failed (.store e)) := by
  have hwritten : (fresh config store).written now record.id record .proceeds =
      (fresh config store, .replies (.failed (.store e)), none) := by
    simp only [written, StoreTurn.run, show (fresh config store).store = store from rfl, hwrite]
  rw [publishAlone, publish_fresh h]
  simp only [hwritten, conclude, canReply, if_true]

/-- What the store takes stays there, whether the call breaks down or not. -/
theorem publishAlone_taken (h : record.validate = .ok ()) {after : Store}
    (hwrite : store.write record = .ok after) :
    ((fresh config store).publishAlone now record.id record).1.store = after ∧
      ((fresh config store).publishAlone now record.id record).2 =
        if (fresh config store).responses.canWrite record.id record.response.toBytes now then
          some .published else none := by
  rcases written_cases (fresh config store) now record.id record .proceeds with
    ⟨e, he, -⟩ | ⟨taken, htaken, hstore, -, hreply⟩
  · rw [StoreTurn.run, show (fresh config store).store = store from rfl, hwrite] at he
    cases he
  · rw [StoreTurn.run, show (fresh config store).store = store from rfl, hwrite] at htaken
    cases htaken
    rcases hpiece : (fresh config store).written now record.id record .proceeds with
      ⟨service, next, put⟩
    rw [hpiece] at hstore hreply
    obtain ⟨rfl, -⟩ := Prod.mk.inj hreply
    rw [publishAlone, publish_fresh h]
    simp only [hpiece]
    obtain ⟨hkept, hreply⟩ := conclude_replies (fresh config store) service record.id
      (some record.response) .published put
    exact ⟨hkept.trans hstore, hreply⟩

theorem get_fresh {id : String} {key : Octets 32} (h : readId id = .ok (key, recordId key)) :
    (fresh config store).get now id =
      (fresh config store, .waits (.lookup (recordId key))) := by
  simp only [get, h]
  rfl

/-- What a node alone answers is what its store answers, unless the caches cannot write it. -/
theorem getAlone_fresh {id : String} {key : Octets 32} (h : readId id = .ok (key, recordId key)) :
    ((fresh config store).getAlone now id).2 =
      match store.read (recordId key) with
      | .error e => some (.failed (.store e))
      | .ok none =>
        if (fresh config store).negative.canWrite (recordId key) missingMark now then
          some .notFound else none
      | .ok (some record) =>
        if (fresh config store).responses.canWrite (recordId key) record.response.toBytes now then
          some (.found record.response) else none := by
  have hread : StoreTurn.proceeds.run ((fresh config store).store.read (recordId key)) =
      store.read (recordId key) := rfl
  rw [getAlone, get_fresh h]
  simp only [lookedUp, readBack, hread]
  rcases store.read (recordId key) with e | _ | record
  · rfl
  · exact (conclude_replies (fresh config store) _ _ none .notFound none).2
  · exact (conclude_replies (fresh config store) _ _ none (.found record.response)
      (some record)).2

end Service

/-- What is read under the id of a key is a valid record of the key. -/
theorem RowStore.valid_of_read {rows : RowStore} {key : Octets 32} {r : Record}
    (h : rows.read (recordId key) = .ok (some r)) : r.id = recordId key ∧ r.validate = .ok () := by
  simp only [read, readKey] at h
  split at h
  · cases h
  · rename_i wire hwire
    have hrow : readRow (Bytes.ofText (recordId key)) wire = .ok r := by
      rcases hrow : readRow (Bytes.ofText (recordId key)) wire with e | r'
      · rw [hrow] at h
        cases h
      · rw [hrow] at h
        cases h
        rfl
    simp only [readRow, Utf8.lossy_ofText, readRecordId_recordId] at hrow
    split at hrow
    · cases hrow
    · rename_i record hrecord
      cases hrow
      obtain ⟨hvalid, hkey, -⟩ := Record.ofWire_eq_ok.1 hrecord
      exact ⟨congrArg recordId (Octets.ext hkey), hvalid⟩

/-! ## 4. The commands -/

namespace Cli

theorem Disk.store_writeStore (d : Disk) (place : Place) (rows : RowStore) :
    (d.writeStore place rows).store place = rows := by
  simp [store, writeStore]

namespace OpenSession

variable {s : OpenSession} {record : Record}

/-- The response of a record can be cached. -/
def CanCache (s : OpenSession) (record : Record) : Prop :=
  s.config.responses.canWrite record.id record.response.toBytes s.surroundings.uptime = true

instance (s : OpenSession) (record : Record) : Decidable (s.CanCache record) :=
  inferInstanceAs (Decidable (_ = true))

/-- What the store takes is on the disk, whether the command breaks down or not. -/
theorem publish_taken (h : record.validate = .ok ()) {rows : RowStore}
    (hwrite : s.store.write record = .ok rows) :
    (s.publish record).disk = s.disk.writeStore s.database rows ∧
      (s.publish record).ending =
        if ¬ s.CanCache record then .crashed .expiry
        else if waitLimit ≤ s.config.republish.putTimeoutSecs.toNat + 1 then .crashed .wait
        else if clockEnd ≤
            s.surroundings.uptime / 1000 + (s.config.republish.putTimeoutSecs.toNat + 1) then
          .crashed .waitEnd
        else .done := by
  have hwrite' : (Store.rows s.store).write record = .ok (.rows rows) := by
    rw [Store.write, hwrite]
    rfl
  obtain ⟨hstore, hreply⟩ :
      (s.service.publishAlone s.surroundings.uptime record.id record).1.store = .rows rows ∧
        (s.service.publishAlone s.surroundings.uptime record.id record).2 =
          if s.CanCache record then some .published else none :=
    Service.publishAlone_taken h hwrite'
  rcases hcall : s.service.publishAlone s.surroundings.uptime record.id record with
    ⟨service, reply⟩
  rw [hcall] at hstore hreply
  have hstore' : service.store = .rows rows := hstore
  have hsaved : s.saved service = s.disk.writeStore s.database rows := by
    rw [saved, hstore']
  simp only [publish, hcall, hreply, hsaved]
  by_cases hcache : s.CanCache record
  · simp only [hcache, if_true, not_true_eq_false, if_false, Config.putTimeout_eq,
      announcementEnd_eq]
    by_cases hwait : waitLimit ≤ s.config.republish.putTimeoutSecs.toNat + 1
    · simp only [if_pos hwait, Session.finish, and_self]
    · by_cases hend : clockEnd ≤
          s.surroundings.uptime / 1000 + (s.config.republish.putTimeoutSecs.toNat + 1)
      · simp only [if_neg hwait, if_pos hend, Session.finish, and_self]
      · simp only [if_neg hwait, if_neg hend, Session.finish, and_self]
  · simp [hcache, Session.finish]

/-- A record that is not taken is refused. -/
theorem publish_refused (h : ∀ rows, record.validate = .ok () → s.store.write record ≠ .ok rows)
    (why : Breakdown) : (s.publish record).ending ≠ .crashed why := by
  have hreply : ∃ e, (s.service.publishAlone s.surroundings.uptime record.id record).2 =
      some (.failed e) := by
    rcases hvalid : record.validate with e | ⟨⟩
    · exact ⟨_, Service.publishAlone_invalid hvalid⟩
    · rcases hwrite : s.store.write record with e | rows
      · have hwrite' : (Store.rows s.store).write record = .error e := by
          rw [Store.write, hwrite]
          rfl
        exact ⟨_, Service.publishAlone_refused hvalid hwrite'⟩
      · exact absurd hwrite (h rows hvalid)
  obtain ⟨e, he⟩ := hreply
  rcases hcall : s.service.publishAlone s.surroundings.uptime record.id record with
    ⟨service, reply⟩
  rw [hcall] at he
  cases he
  simp [publish, hcall, Session.finish, Ending.ofService]

/-- The command that looks for a record breaks down when it cannot cache what its store answers. -/
theorem get_crashed_iff {id : String} {key : Octets 32}
    (h : readId id = .ok (key, recordId key)) (why : Breakdown) :
    (s.get id).ending = .crashed why ↔ why = .expiry ∧
      ((s.store.read (recordId key) = .ok none ∧
        ¬ s.config.negative.canWrite (recordId key) missingMark s.surroundings.uptime = true) ∨
      ∃ record, s.store.read (recordId key) = .ok (some record) ∧
        ¬ s.config.responses.canWrite (recordId key) record.response.toBytes
          s.surroundings.uptime = true) := by
  have hreply :=
    @Service.getAlone_fresh s.config.serviceConfig (.rows s.store) s.surroundings.uptime id key h
  rcases hcall : s.service.getAlone s.surroundings.uptime id with ⟨service, reply⟩
  rw [show Service.fresh s.config.serviceConfig (.rows s.store) = s.service from rfl, hcall,
    show (Store.rows s.store).read (recordId key) = s.store.read (recordId key) from rfl] at hreply
  rcases hread : s.store.read (recordId key) with e | _ | record
  · rw [hread] at hreply
    cases hreply
    simp [get, hcall, Session.finish, Ending.ofService]
  · rw [hread] at hreply
    by_cases hwrite : s.config.negative.canWrite (recordId key) missingMark
        s.surroundings.uptime = true
    · have hnone : reply = some .notFound := hreply.trans (if_pos hwrite)
      simp [get, hcall, hnone, hwrite, Session.finish]
    · have hnone : reply = none := hreply.trans (if_neg hwrite)
      simp [get, hcall, hnone, hwrite, Session.finish, @eq_comm _ why]
  · rw [hread] at hreply
    by_cases hwrite : s.config.responses.canWrite (recordId key) record.response.toBytes
        s.surroundings.uptime = true
    · have hfound : reply = some (.found record.response) := hreply.trans (if_pos hwrite)
      simp [get, hcall, hfound, hwrite, Session.finish]
    · have hfound : reply = none := hreply.trans (if_neg hwrite)
      simp [get, hcall, hfound, hwrite, Session.finish, @eq_comm _ why]

end OpenSession

theorem load_of_loadConfig {disk disk' : Disk} {directory : Place} {path : String} {c : Config}
    {notices : List String}
    (h : Session.loadConfig disk directory path = .ok (c, disk', notices)) :
    ∃ place file, Path.read path = .ok place ∧ disk.readFile directory place = .ok file ∧
      Config.load file = .ok c := by
  unfold Session.loadConfig at h
  rcases hpath : Path.read path with fault | place
  · rw [hpath] at h
    cases h
  · rcases hfile : disk.readFile directory place with fault | file
    · simp only [hpath, hfile, reduceCtorEq] at h
    · rcases hload : Config.load file with e | config
      · simp only [hpath, hfile, hload, reduceCtorEq] at h
      · refine ⟨place, file, rfl, hfile, ?_⟩
        rcases file with _ | content
        · simp only [hpath, hfile, hload] at h
          rw [hload]
          split at h <;> cases h <;> rfl
        · simp only [hpath, hfile, hload] at h
          cases h
          exact hload

/-- The settings of a run are those of a text that was loaded, whatever else overrides it. -/
theorem settings_of_prepare {disk : Disk} {surroundings : Surroundings} {a : Arguments}
    {session : Session} (h : Session.prepare disk surroundings a = .ok session) :
    ∃ place file config, Path.read (Session.configPath surroundings a) = .ok place ∧
      disk.readFile surroundings.directory place = .ok file ∧ Config.load file = .ok config ∧
      session.surroundings = surroundings ∧
      session.config = Session.configured config surroundings a := by
  unfold Session.prepare at h
  split at h
  · cases h
  · rename_i stored disk' notices hstored
    obtain ⟨place, file, hpath, hfile, hload⟩ := load_of_loadConfig hstored
    dsimp only at h
    split at h
    · cases h
    · cases h
      exact ⟨place, file, stored, hpath, hfile, hload, rfl, rfl⟩

theorem eq_of_openStore {session : Session} {s : OpenSession} (h : session.openStore = .ok s) :
    s.config = session.config ∧ s.surroundings = session.surroundings := by
  unfold Session.openStore at h
  dsimp only at h
  split at h
  · cases h
  · split at h
    · cases h
    · split at h
      · cases h
      · split at h
        · cases h
        · cases h
          exact ⟨rfl, rfl⟩

theorem withPeers_sections (c : Config) (text : String) :
    (c.withPeers text).cache = c.cache ∧ (c.withPeers text).republish = c.republish := by
  unfold Config.withPeers
  split
  · exact ⟨rfl, rfl⟩
  · exact ⟨rfl, rfl⟩

/-- Nothing overrides the settings of caches and puts. -/
theorem configured_sections (c : Config) (surroundings : Surroundings) (a : Arguments) :
    (Session.configured c surroundings a).cache = c.cache ∧
      (Session.configured c surroundings a).republish = c.republish := by
  unfold Session.configured
  cases a.logLevel <;> cases a.dataDir <;> cases a.bootstrap.isEmpty <;>
    cases surroundings.peers <;> first | exact ⟨rfl, rfl⟩ | exact withPeers_sections c _

/-- Deadlines of a configuration that was loaded. All that are asked for at readings of the clock up
    to `2 ^ 40` seconds can be told exactly if its settings keep as far from the end of the clock.
    A put in the background fails for want of nodes, and is lost exactly if its deadline cannot be
    told. A record that the store takes is on the disk, and the command that publishes it breaks
    down exactly at the first of three sums that it cannot tell: the expiry of the cached response,
    where responses are cached; how long to wait for the announcement; and until when. A record that
    the store does not take is refused. The command that looks for a record breaks down exactly if
    it cannot tell the expiry of the mark of an id that is nowhere, or of the response that the
    store has. -/
theorem deadlines_in_runs {disk : Disk} {surroundings : Surroundings} {a : Arguments}
    {session : Session} {s : OpenSession}
    (hprepare : Session.prepare disk surroundings a = .ok session)
    (hopen : session.openStore = .ok s) :
    ∃ place file c, Path.read (Session.configPath surroundings a) = .ok place ∧
      disk.readFile surroundings.directory place = .ok file ∧ Config.load file = .ok c ∧
      ((∀ now, now / 1000 ≤ 2 ^ 40 → s.config.TellsDeadlines now) ↔
        2 ^ 40 + c.cache.ttlSecs.toNat < clockEnd ∧
        2 ^ 40 + c.cache.negativeTtlSecs.toNat < clockEnd ∧
        2 ^ 40 + (c.republish.putTimeoutSecs.toNat + 1) < clockEnd) ∧
      (∀ now, putAlone now s.config.serviceConfig.putTimeout =
        if now / 1000 + c.republish.putTimeoutSecs.toNat < clockEnd then .failed else .lost) ∧
      (∀ record rows, record.validate = .ok () → s.store.write record = .ok rows →
        (s.publish record).disk.store s.database = rows ∧
        (s.publish record).ending =
          if c.cache.sizeLimitMb ≠ 0 ∧
              clockEnd ≤ surroundings.uptime / 1000 + c.cache.ttlSecs.toNat then
            .crashed .expiry
          else if waitLimit ≤ c.republish.putTimeoutSecs.toNat + 1 then .crashed .wait
          else if clockEnd ≤
              surroundings.uptime / 1000 + (c.republish.putTimeoutSecs.toNat + 1) then
            .crashed .waitEnd
          else .done) ∧
      (∀ record, (∀ rows, record.validate = .ok () → s.store.write record ≠ .ok rows) →
        ∀ why, (s.publish record).ending ≠ .crashed why) ∧
      ∀ id key, readId id = .ok (key, recordId key) → ∀ why,
        ((s.get id).ending = .crashed why ↔ why = .expiry ∧
          ((s.store.read (recordId key) = .ok none ∧
            clockEnd ≤ surroundings.uptime / 1000 + c.cache.negativeTtlSecs.toNat) ∨
          ∃ record, s.store.read (recordId key) = .ok (some record) ∧ c.cache.sizeLimitMb ≠ 0 ∧
            clockEnd ≤ surroundings.uptime / 1000 + c.cache.ttlSecs.toNat)) := by
  obtain ⟨place, file, c, hpath, hfile, hload, hsurroundings, hconfig⟩ :=
    settings_of_prepare hprepare
  obtain ⟨hconfig', hsurroundings'⟩ := eq_of_openStore hopen
  obtain ⟨hcache, hrepublish⟩ := configured_sections c surroundings a
  rw [← hconfig, ← hconfig'] at hcache hrepublish
  have huptime : s.surroundings.uptime = surroundings.uptime := by
    rw [hsurroundings', hsurroundings]
  refine ⟨place, file, c, hpath, hfile, hload, ?_, fun now => ?_, ?_,
    fun record h => OpenSession.publish_refused h, ?_⟩
  · rw [← hcache, ← hrepublish]
    constructor
    · intro h
      exact Config.tellsDeadlines_iff.1 (h (1000 * 2 ^ 40) (by decide))
    · rintro ⟨hresponse, hmark, hwait⟩ now hnow
      exact Config.tellsDeadlines_iff.2 ⟨by omega, by omega, by omega⟩
  · rw [← hrepublish]
    exact putAlone_eq
  · intro record rows hvalid hwrite
    obtain ⟨hdisk, hending⟩ := OpenSession.publish_taken hvalid hwrite
    refine ⟨by rw [hdisk, Disk.store_writeStore], ?_⟩
    have hcached : s.CanCache record ↔ ¬ (c.cache.sizeLimitMb ≠ 0 ∧
        clockEnd ≤ surroundings.uptime / 1000 + c.cache.ttlSecs.toNat) := by
      rw [OpenSession.CanCache, Config.canWrite_response hvalid, hcache, huptime,
        Decidable.not_and_iff_not_or_not, Decidable.not_not, Nat.not_le]
    rw [hending, hrepublish, huptime]
    simp only [hcached, Decidable.not_not]
  · intro id key hid why
    rw [OpenSession.get_crashed_iff hid, Config.canWrite_mark, hcache, huptime, Nat.not_lt]
    refine and_congr_right fun _ => or_congr_right
      (exists_congr fun record => and_congr_right fun hread => ?_)
    obtain ⟨hown, hvalid⟩ := RowStore.valid_of_read hread
    rw [← hown, Config.canWrite_response hvalid, hcache, not_or, Nat.not_lt]

/-- A configuration by which responses stay cached for as long as can be said. -/
def endlessTtl : Bytes :=
  Bytes.ofText "\x7b\"cache\":\x7b\"ttl_secs\":18446744073709551615\x7d\x7d"

/-- A letter is a path of one step. -/
theorem Path.read_letter :
    ∀ letter ∈ ["c", "d"], Path.read letter = .ok ⟨false, [letter], false⟩ := by
  intro letter hletter
  have hsplit : letter.splitOn "/" = [letter] := by
    simp only [List.mem_cons, List.not_mem_nil, or_false] at hletter
    rcases hletter with rfl | rfl <;>
    · unfold String.splitOn
      rw [if_neg (by decide), String.splitOnAux, if_neg (by decide +kernel),
        if_neg (by decide +kernel), String.splitOnAux, if_pos (by decide +kernel)]
      decide +kernel
  simp only [List.mem_cons, List.not_mem_nil, or_false] at hletter
  rcases hletter with rfl | rfl
  · have h : "c".startsWith "/" = false := by decide +kernel
    simp [Path.read, hsplit, h]
  · have h : "d".startsWith "/" = false := by decide +kernel
    simp [Path.read, hsplit, h]

/-- By that configuration, a record is taken into a new store and the command breaks down. -/
theorem deadlines_in_runs_of_endless :
    let disk : Disk := ⟨[(["c"], .file endlessTtl)], []⟩
    let surroundings : Surroundings :=
      ⟨[], "c", none, none, 1700000000, 5000, ⟨1, fun _ => "", none⟩⟩
    let arguments : Arguments := ⟨none, none, [], some "d", .publish "" "" none⟩
    let record := neutralRecord [104, 105] 1
    ∃ session s rows, Session.prepare disk surroundings arguments = .ok session ∧
      session.openStore = .ok s ∧ s.store.write record = .ok rows ∧
      (s.publish record).disk.store s.database = rows ∧
      (s.publish record).ending = .crashed .expiry := by
  intro disk surroundings arguments record
  have hsettings : (Config.load (some endlessTtl)).toOption.map
      (fun c => (c.cache.ttlSecs, c.cache.sizeLimitMb, c.logLevel)) =
        some (18446744073709551615, 500, "info") := by
    decide +kernel
  have hfile : disk.readFile [] ⟨false, ["c"], false⟩ = .ok (some endlessTtl) := rfl
  rcases hload : Config.load (some endlessTtl) with e | c
  · rw [hload] at hsettings
    cases hsettings
  · rw [hload] at hsettings
    simp only [Except.toOption, Option.map_some, Option.some.injEq, Prod.mk.injEq] at hsettings
    have hlevel : LogLevel.read? "info" = some .info := by decide +kernel
    have hprepare : Session.prepare disk surroundings arguments =
        .ok ⟨disk, [], Session.configured c surroundings arguments, .info, surroundings⟩ := by
      have hconfig : Session.loadConfig disk [] "c" = .ok (c, disk, []) := by
        simp only [Session.loadConfig, Path.read_letter "c" (by simp), hfile, hload]
      simp only [Session.prepare, Session.configPath, arguments, surroundings, Option.getD_none,
        hconfig, Session.configured, List.isEmpty_nil, if_true, hsettings.2.2, hlevel]
    have hmade : disk.makeDirectories [] ["d"] = .ok (disk.enter ["d"] .directory) := by
      have hone : disk.makeDirectory [] ["d"] = .ok (disk.enter ["d"] .directory) := rfl
      show disk.makeFromLast [] ["d"] = _
      rw [Disk.makeFromLast, show ["d"].reverse = ["d"] from rfl, hone]
    have hopen : Session.openStore
        ⟨disk, [], Session.configured c surroundings arguments, .info, surroundings⟩ =
        .ok ⟨⟨(disk.enter ["d"] .directory).writeStore ["d", "records.db"] .empty, [],
          Session.configured c surroundings arguments, .info, surroundings⟩,
          ["d", "records.db"]⟩ := by
      have hdir : (Session.configured c surroundings arguments).storage.dataDir = "d" := rfl
      unfold Session.openStore
      simp only [hdir, Path.read_letter "d" (by simp), Path.origin, surroundings,
        Bool.false_eq_true, if_false, hmade]
      rfl
    obtain ⟨place, file, stored, hpath, hread, hstored, -, -, hpublish, -⟩ :=
      deadlines_in_runs hprepare hopen
    -- what was loaded is that text
    obtain rfl : ⟨false, ["c"], false⟩ = place :=
      Except.ok.inj ((Path.read_letter "c" (by simp)).symm.trans hpath)
    obtain rfl : some endlessTtl = file := Except.ok.inj (hfile.symm.trans hread)
    obtain rfl : c = stored := Except.ok.inj (hload.symm.trans hstored)
    have hwrite : RowStore.empty.write record =
        .ok { RowStore.empty with
          records := Table.empty.insert (Bytes.ofText record.id) record.toWire } := rfl
    obtain ⟨hdisk, hending⟩ :=
      hpublish record _ (validate_neutralRecord (by decide) (by decide)) hwrite
    refine ⟨_, _, _, hprepare, hopen, hwrite, hdisk, hending.trans (if_pos ?_)⟩
    rw [hsettings.1, hsettings.2.1]
    decide

end Cli

end SignedRecords
