import SignedRecords.Proofs.CachePurges

/-!
# A cache from write to write

What a cache holds is part of what stands: of the writes that were taken, those whose key was
neither written again nor removed, in the order in which they were made. Its count of octets is the
sum of its entries', so that entries can be counted down one by one and never below zero; and where
a new entry needs room, those that were written longest ago leave for it, and no more than have to.

Moments and lifetimes have no bound here. A write whose expiry is later than a clock can tell breaks
down once the entry of its key has left, so that it leaves what a removal leaves.

Main statement: `accounts_in_runs`.
-/

namespace SignedRecords

/-! ## 1. What stands -/

/-- Whether a request leaves alone what was written under a key: it does not remove it, and if it
    writes the key, it is refused. -/
def CacheRequest.Spares (limit : Nat) (key : String) (request : CacheRequest) : Prop :=
  request ≠ .remove key ∧ ∀ value, request = .set key value → limit < entrySize key value

/-- A value is what was last written under a key, at a millisecond and with nothing removed since;
    writes of more octets than the limit do not count. -/
def CacheRun.LastWrites (run : CacheRun) (limit : Nat) (key : String) (value : Bytes)
    (moment : Nat) : Prop :=
  ∃ before later, run = before ++ (moment, .set key value) :: later ∧
    entrySize key value ≤ limit ∧ ∀ e ∈ later, e.2.Spares limit key

/-- What stands after a request, where `es` stood before. -/
def CacheRequest.note (ttl limit now : Nat) (es : List CacheEntry) :
    CacheRequest → List CacheEntry
  | .set key value =>
    if entrySize key value ≤ limit then es.filter (·.key != key) ++ [⟨key, value, now + ttl⟩]
    else es
  | .remove key => es.filter (·.key != key)
  | _ => es

/-- What stands after a run, the one written longest ago first: what a cache would hold from which
    nothing expires and that has room for everything. -/
def CacheRun.standing (ttl limit : Nat) (es : List CacheEntry) : CacheRun → List CacheEntry
  | [] => es
  | (now, request) :: rest => CacheRun.standing ttl limit (request.note ttl limit now es) rest

/-- What stands was the last to be written under its key. -/
theorem CacheRun.lastWrites_of_standing {ttl limit : Nat} {es : List CacheEntry} {run : CacheRun}
    {e : CacheEntry} (h : e ∈ run.standing ttl limit es) :
    (e ∈ es ∧ ∀ r ∈ run, r.2.Spares limit e.key) ∨
      ∃ moment, run.LastWrites limit e.key e.value moment ∧ e.expiresAt = moment + ttl := by
  induction run generalizing es with
  | nil => exact .inl ⟨h, fun r hr => nomatch hr⟩
  | cons first rest ih =>
    obtain ⟨now, request⟩ := first
    rcases ih h with ⟨hnoted, hspared⟩ | ⟨moment, ⟨before, later, rfl, hfits, hspared⟩, hexpires⟩
    · -- What stood already is spared by this request too, or this request has written it.
      have hcons : request.Spares limit e.key →
          ∀ r ∈ (now, request) :: rest, r.2.Spares limit e.key := by
        intro hfirst
        exact List.forall_mem_cons.2 ⟨hfirst, hspared⟩
      cases request with
      | get key => exact .inl ⟨hnoted, hcons ⟨nofun, nofun⟩⟩
      | purge => exact .inl ⟨hnoted, hcons ⟨nofun, nofun⟩⟩
      | remove key =>
        obtain ⟨hmem, hother⟩ := List.mem_filter.1 hnoted
        refine .inl ⟨hmem, hcons ⟨fun heq => ?_, nofun⟩⟩
        cases heq
        simp at hother
      | set key value =>
        by_cases hfits : entrySize key value ≤ limit
        · simp only [CacheRequest.note, if_pos hfits] at hnoted
          rcases List.mem_append.1 hnoted with hold | hnew
          · obtain ⟨hmem, hother⟩ := List.mem_filter.1 hold
            refine .inl ⟨hmem, hcons ⟨nofun, fun v heq => ?_⟩⟩
            cases heq
            simp at hother
          · obtain rfl := List.mem_singleton.1 hnew
            exact .inr ⟨now, ⟨[], rest, rfl, hfits, hspared⟩, rfl⟩
        · simp only [CacheRequest.note, if_neg hfits] at hnoted
          refine .inl ⟨hnoted, hcons ⟨nofun, fun v heq => ?_⟩⟩
          cases heq
          exact Nat.lt_of_not_le hfits
    · exact .inr ⟨moment, ⟨(now, request) :: before, later, rfl, hfits, hspared⟩, hexpires⟩

/-- Whether an entry leaves with a request that writes nothing. -/
def CacheRequest.drops (now : Nat) (e : CacheEntry) : CacheRequest → Bool
  | .get key => e.key == key && !e.isLive now
  | .set _ _ => false
  | .remove key => e.key == key
  | .purge => !e.isLive now

namespace TtlCache

/-! ## 2. Counting down -/

/-- A count after entries have been taken from it one by one; none where an entry takes more octets
    than are left of the count. -/
def countDown : Nat → List CacheEntry → Option Nat
  | count, [] => some count
  | count, e :: rest => if e.size ≤ count then countDown (count - e.size) rest else none

/-- A count that is no less than the sum can be counted down. -/
theorem countDown_eq_some {es : List CacheEntry} {count left : Nat} :
    countDown count es = some left ↔ count = octetsOf es + left := by
  induction es generalizing count with
  | nil => simp [countDown, octetsOf]
  | cons e rest ih =>
    unfold countDown octetsOf
    split
    · rw [ih]
      omega
    · simp only [reduceCtorEq, false_iff]
      omega

theorem octetsOf_perm {es es' : List CacheEntry} (h : es.Perm es') :
    octetsOf es = octetsOf es' := by
  induction h with
  | nil => rfl
  | cons e _ ih => rw [octetsOf, octetsOf, ih]
  | swap e e' es => simp only [octetsOf, Nat.add_left_comm]
  | trans _ _ ih ih' => exact ih.trans ih'

/-- The entries that do not pass a test can be counted down. -/
theorem Neat.countDown_filter {c : TtlCache} (h : c.Neat) (test : CacheEntry → Bool) :
    countDown c.bytes (c.entries.filter fun e => !test e) =
      some (octetsOf (c.entries.filter test)) := by
  rw [countDown_eq_some, h.counted, Nat.add_comm, ← octetsOf_append]
  exact octetsOf_perm (List.filter_append_perm test c.entries).symm

/-! ## 3. Requests that write nothing -/

/-- What a request that writes nothing leaves of a cache: entries leave by a test, and they are
    counted down. -/
structure Drops (c : TtlCache) (test : CacheEntry → Bool) (after : TtlCache) : Prop where
  entries : after.entries = c.entries.filter fun e => !test e
  count : countDown c.bytes (c.entries.filter test) = some after.bytes

theorem Neat.drops {c : TtlCache} (h : c.Neat) (test : CacheEntry → Bool) :
    c.Drops test (c.keep fun e => !test e) := by
  have hcount := h.countDown_filter fun e => !test e
  simp only [Bool.not_not] at hcount
  exact ⟨rfl, hcount⟩

/-- A request that writes nothing drops the entries that it names, if they are no longer live or are
    to be removed, and no others. -/
theorem Neat.serve_drops {c : TtlCache} (h : c.Neat) (now : Nat) (request : CacheRequest)
    (hwrites : ∀ key value, request ≠ .set key value) :
    (c.serve now request).1 = c.keep fun e => !request.drops now e := by
  cases request with
  | get key =>
    show (c.get key now).1 = _
    rw [h.get_eq]
    refine keep_congr fun e _ => ?_
    rw [CacheRequest.drops, Bool.not_and, Bool.not_not]
    rfl
  | set key value => exact absurd rfl (hwrites key value)
  | remove key =>
    show c.remove key = _
    rw [h.remove_eq]
    rfl
  | purge =>
    show (c.purge now).1 = _
    rw [h.purge_eq]
    refine keep_congr fun e _ => ?_
    rw [CacheRequest.drops, Bool.not_not]

/-! ## 4. Writes -/

/-- A write that is taken: the entry that its key had leaves, then `evicted` leave, which were
    written longest ago, and the new entry comes last. Had fewer left, there would not be enough
    room. -/
structure Takes (c : TtlCache) (e : CacheEntry) (evicted kept : List CacheEntry)
    (after : TtlCache) : Prop where
  others : c.entries.filter (·.key != e.key) = evicted ++ kept
  entries : after.entries = kept ++ [e]
  replaced : countDown c.bytes (c.entries.filter (·.key == e.key)) =
    some (octetsOf (evicted ++ kept))
  count : countDown (octetsOf (evicted ++ kept) + e.size) evicted = some after.bytes
  fits : after.bytes ≤ c.maxBytes
  fewest : ∀ fewer more, evicted ++ kept = fewer ++ more → fewer.length < evicted.length →
    c.maxBytes < octetsOf more + e.size

theorem octetsOf_concat (es : List CacheEntry) (e : CacheEntry) :
    octetsOf (es ++ [e]) = octetsOf es + e.size := octetsOf_append es [e]

/-- An entry that fits alone is never evicted by its own write. -/
theorem Writes.takes {c after : TtlCache} {e : CacheEntry} (h : c.Writes e after) (hc : c.Neat)
    (hsize : e.size ≤ c.maxBytes) : ∃ evicted kept, c.Takes e evicted kept after := by
  obtain ⟨kept, hkept⟩ : [e] <:+ after.entries := h.longest [e] (List.suffix_append _ _) hsize
  obtain ⟨evicted, hevicted⟩ := h.last
  rw [← hkept, ← List.append_assoc] at hevicted
  have hothers : evicted ++ kept = c.entries.filter (·.key != e.key) :=
    List.append_cancel_right hevicted
  have htotal : after.bytes = octetsOf kept + e.size := by
    rw [h.neat.counted, ← hkept, octetsOf_concat]
  refine ⟨evicted, kept, hothers.symm, hkept.symm, ?_, ?_, ?_, fun fewer more hsplit hless => ?_⟩
  · have hcount := hc.countDown_filter (·.key != e.key)
    simp only [bne, Bool.not_not] at hcount
    rw [hothers]
    exact hcount
  · rw [countDown_eq_some, octetsOf_append, htotal, Nat.add_assoc]
  · rw [h.neat.counted]
    exact h.fits
  · -- Otherwise more would have been kept.
    refine Nat.lt_of_not_le fun hroom => ?_
    have hlast : more ++ [e] <:+ c.entries.filter (·.key != e.key) ++ [e] := by
      rw [← hothers, hsplit, List.append_assoc]
      exact List.suffix_append _ _
    have hlonger := (h.longest _ hlast (octetsOf_concat more e ▸ hroom)).length_le
    have hlength := congrArg List.length hsplit
    rw [← hkept, List.length_append, List.length_append] at hlonger
    rw [List.length_append, List.length_append] at hlength
    omega

/-! ## 5. Runs -/

/-- A cache of some lifetime and limits after a run, where `stands` stands: each key has one entry
    at most, the count is the sum, both limits are kept, and the entries are in the order in which
    they were written. -/
structure Accounts (ttl maxBytes limit : Nat) (stands : List CacheEntry) (c : TtlCache) :
    Prop where
  ttl_eq : c.ttl = ttl
  maxBytes_eq : c.maxBytes = maxBytes
  maxEntryBytes_eq : c.maxEntryBytes = limit
  distinct : c.entries.Pairwise fun a b => a.key ≠ b.key
  counted : c.bytes = octetsOf c.entries
  fits : c.bytes ≤ maxBytes
  small : ∀ e ∈ c.entries, e.size ≤ limit
  recent : c.entries.Sublist stands

variable {ttl maxBytes limit : Nat} {stands : List CacheEntry} {c : TtlCache}

theorem Accounts.neat (h : Accounts ttl maxBytes limit stands c) : c.Neat :=
  ⟨h.distinct, h.counted⟩

theorem accounts_empty (ttl maxBytes maxEntryBytes : Nat) :
    Accounts ttl maxBytes (min maxEntryBytes maxBytes) [] (empty ttl maxBytes maxEntryBytes) :=
  ⟨rfl, rfl, rfl, .nil, rfl, Nat.zero_le _, (fun _ he => nomatch he), List.Sublist.refl _⟩

theorem Accounts.keep (h : Accounts ttl maxBytes limit stands c) (test : CacheEntry → Bool)
    {stands' : List CacheEntry} (hrecent : (c.entries.filter test).Sublist stands') :
    Accounts ttl maxBytes limit stands' (c.keep test) where
  ttl_eq := h.ttl_eq
  maxBytes_eq := h.maxBytes_eq
  maxEntryBytes_eq := h.maxEntryBytes_eq
  distinct := (h.neat.keep test).distinct
  counted := rfl
  fits := by
    have hcount := countDown_eq_some.1 (h.neat.countDown_filter test)
    have hfits := h.fits
    show octetsOf (c.entries.filter test) ≤ maxBytes
    omega
  small e he := h.small e (List.mem_filter.1 he).1
  recent := hrecent

/-- Every request keeps the accounts, and what it leaves stands. -/
theorem Accounts.serve (h : Accounts ttl maxBytes limit stands c) (now : Nat)
    (request : CacheRequest) :
    Accounts ttl maxBytes limit (request.note ttl limit now stands) (c.serve now request).1 := by
  cases request with
  | get key =>
    rw [h.neat.serve_drops now (.get key) nofun]
    exact h.keep _ (List.filter_sublist.trans h.recent)
  | remove key =>
    rw [h.neat.serve_drops now (.remove key) nofun]
    exact h.keep _ (h.recent.filter _)
  | purge =>
    rw [h.neat.serve_drops now .purge nofun]
    exact h.keep _ (List.filter_sublist.trans h.recent)
  | set key value =>
    cases hset : c.set key value now with
    | error e =>
      obtain ⟨hlarge, -⟩ := set_eq_error.1 hset
      rw [h.maxEntryBytes_eq] at hlarge
      rw [serve_set_error hset, CacheRequest.note, if_neg (Nat.not_le_of_lt hlarge)]
      exact h
    | ok after =>
      have hsmall : entrySize key value ≤ limit :=
        h.maxEntryBytes_eq ▸ (set_isOk c key value now).1 ⟨after, hset⟩
      have hexpiry : c.expiryAt now = now + ttl := by rw [expiryAt, h.ttl_eq]
      have hwrites := h.neat.writes hset
      rw [hexpiry] at hwrites
      rw [serve_set_ok hset, CacheRequest.note, if_pos hsmall]
      exact
        { ttl_eq := hwrites.ttl.trans h.ttl_eq
          maxBytes_eq := hwrites.maxBytes.trans h.maxBytes_eq
          maxEntryBytes_eq := hwrites.maxEntryBytes.trans h.maxEntryBytes_eq
          distinct := hwrites.neat.distinct
          counted := hwrites.neat.counted
          fits := by
            rw [hwrites.neat.counted, ← h.maxBytes_eq]
            exact hwrites.fits
          small := fun e he => by
            rcases List.mem_append.1 (hwrites.last.subset he) with hold | hnew
            · exact h.small e (List.mem_filter.1 hold).1
            · rw [List.mem_singleton.1 hnew]
              exact hsmall
          recent := hwrites.last.sublist.trans ((h.recent.filter _).append_right _) }

theorem Accounts.after (h : Accounts ttl maxBytes limit stands c) (run : CacheRun) :
    Accounts ttl maxBytes limit (run.standing ttl limit stands) (c.after run) := by
  induction run generalizing c stands with
  | nil => exact h
  | cons e rest ih => exact ih (h.serve e.1 e.2)

/-- A value that is read was the last to be written under its key, and is live. -/
theorem Accounts.lastWrites_of_get {run : CacheRun}
    (h : Accounts ttl maxBytes limit (run.standing ttl limit []) c) {now : Nat} {key : String}
    {value : Bytes} (hget : (c.get key now).2 = some value) :
    ∃ moment, run.LastWrites limit key value moment ∧ now < moment + ttl := by
  obtain ⟨e, hfind, rfl, hlive⟩ := entry_of_get hget
  obtain rfl : e.key = key := by simpa using List.find?_some hfind
  have hstands := h.recent.subset (List.mem_of_find?_eq_some hfind)
  rcases CacheRun.lastWrites_of_standing hstands with ⟨hnil, -⟩ | ⟨moment, hlast, hexpires⟩
  · cases hnil
  · refine ⟨moment, hlast, ?_⟩
    rw [CacheEntry.isLive, decide_eq_true_eq] at hlive
    omega

/-- For any lifetime and limits, and after every run: the count of the cache is the sum of its
    entries and within the limit for all, a key has one entry at most, no entry is larger than the
    limit for one, and the entries are in the order in which they were written. Every request then
    keeps the count without ever taking more from it than there is. A write of more than the limit
    is refused and changes nothing; every other one is taken, and makes room with the fewest entries
    of those that were written longest ago. A value that is read is what was last written under its
    key, less than a lifetime ago and with nothing removed since. -/
theorem accounts_in_runs (ttl maxBytes maxEntryBytes : Nat) (run : CacheRun) :
    let limit := min maxEntryBytes maxBytes
    let c := (empty ttl maxBytes maxEntryBytes).after run
    Accounts ttl maxBytes limit (run.standing ttl limit []) c ∧
      (∀ now request, (∀ key value, request ≠ .set key value) →
        c.Drops (request.drops now ·) (c.serve now request).1) ∧
      (∀ now key value, limit < entrySize key value → c.serve now (.set key value) =
        (c, .set (.error (.entryTooLarge (entrySize key value) limit)))) ∧
      (∀ now key value, entrySize key value ≤ limit → ∃ evicted kept after,
        c.serve now (.set key value) = (after, .set (.ok ())) ∧
          c.Takes ⟨key, value, now + ttl⟩ evicted kept after) ∧
      ∀ now key value, (c.serve now (.get key)).2 = .got (some value) →
        ∃ moment, run.LastWrites limit key value moment ∧ now < moment + ttl := by
  intro limit c
  have hc : Accounts ttl maxBytes limit (run.standing ttl limit []) c :=
    (accounts_empty ttl maxBytes maxEntryBytes).after run
  refine ⟨hc, fun now request hwrites => ?_, fun now key value hlarge => ?_,
    fun now key value hsmall => ?_, fun now key value hget => ?_⟩
  · rw [hc.neat.serve_drops now request hwrites]
    exact hc.neat.drops _
  · rw [← hc.maxEntryBytes_eq] at hlarge ⊢
    exact serve_set_error (set_eq_error.2 ⟨hlarge, rfl⟩)
  · have hfits : c.Fits key value := by
      rw [Fits, hc.maxEntryBytes_eq]
      exact hsmall
    obtain ⟨after, hset⟩ := (set_isOk c key value now).2 hfits
    have hexpiry : c.expiryAt now = now + ttl := by rw [expiryAt, hc.ttl_eq]
    have hroom : entrySize key value ≤ c.maxBytes :=
      hc.maxBytes_eq ▸ Nat.le_trans hsmall (Nat.min_le_right _ _)
    obtain ⟨evicted, kept, htakes⟩ := (hexpiry ▸ hc.neat.writes hset).takes hc.neat hroom
    exact ⟨evicted, kept, after, serve_set_ok hset, htakes⟩
  · exact hc.lastWrites_of_get (CacheAnswer.got.inj hget)

/-- Reads do not count as use: of three entries the first one written leaves for a fourth. -/
example : (((empty 60000 30 30).after
    [(0, .set "a" (List.replicate 9 0)), (1, .set "b" (List.replicate 9 0)),
      (2, .set "c" (List.replicate 9 0)), (3, .get "a"),
      (4, .set "d" (List.replicate 9 0))]).entries.map (·.key)) = ["b", "c", "d"] := by
  decide +kernel

end TtlCache

end SignedRecords
