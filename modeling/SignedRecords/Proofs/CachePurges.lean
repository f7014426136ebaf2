import SignedRecords.Proofs.CacheAccounts

/-!
# Purges of a cache

Entries of one cache live equally long and the clock does not go back, so the entry that was
written first is the first to expire: what is live is a run of last entries. A write keeps the
longest run of last entries that fits. So the live entries that it keeps depend on the live entries
alone, and it does not matter when the others are purged, although they count as long as they are
there.

Main statement: `purges_invisible`.
-/

namespace SignedRecords

/-- What is asked of a cache. -/
inductive CacheRequest where
  | get (key : String)
  | set (key : String) (value : Bytes)
  | remove (key : String)
  /-- Drops what is no longer live. -/
  | purge
  deriving DecidableEq

/-- What a cache answers. -/
inductive CacheAnswer where
  | got (value : Option Bytes)
  | set (result : Except CacheLimit Unit)
  | removed
  | purged (count : Nat)

/-- Requests to a cache, the first one first, each with its millisecond. -/
abbrev CacheRun := List (Nat × CacheRequest)

/-- The clock does not go back. -/
def CacheRun.Timely (run : CacheRun) : Prop := run.Pairwise fun a b => a.1 ≤ b.1

namespace TtlCache

/-- One request: the cache afterwards, and the answer. -/
def serve (c : TtlCache) (now : Nat) : CacheRequest → TtlCache × CacheAnswer
  | .get key => ((c.get key now).1, .got (c.get key now).2)
  | .set key value =>
    match c.set key value now with
    | .ok c' => (c', .set (.ok ()))
    | .error e => (c, .set (.error e))
  | .remove key => (c.remove key, .removed)
  | .purge => ((c.purge now).1, .purged (c.purge now).2)

/-- The cache after a run. -/
def after (c : TtlCache) : CacheRun → TtlCache
  | [] => c
  | (now, request) :: rest => (c.serve now request).1.after rest

/-- The requests of a run with their answers. -/
def answers (c : TtlCache) : CacheRun → List (CacheRequest × CacheAnswer)
  | [] => []
  | (now, request) :: rest =>
    (request, (c.serve now request).2) :: (c.serve now request).1.answers rest

theorem serve_set_ok {c c' : TtlCache} {now : Nat} {key : String} {value : Bytes}
    (h : c.set key value now = .ok c') : c.serve now (.set key value) = (c', .set (.ok ())) := by
  simp only [serve, h]

theorem serve_set_error {c : TtlCache} {now : Nat} {key : String} {value : Bytes} {e : CacheLimit}
    (h : c.set key value now = .error e) :
    c.serve now (.set key value) = (c, .set (.error e)) := by
  simp only [serve, h]

/-! ## 1. The order of the entries -/

/-- A cache that has been in use up to a millisecond: its entries stand in the order in which they
    expire, and none expires later than one that is written now. -/
structure InUse (c : TtlCache) (now : Nat) : Prop where
  neat : c.Neat
  ordered : c.entries.Pairwise fun a b => a.expiresAt ≤ b.expiresAt
  bounded : ∀ e ∈ c.entries, e.expiresAt ≤ c.expiryAt now

theorem inUse_empty (ttl maxBytes maxEntryBytes now : Nat) :
    (empty ttl maxBytes maxEntryBytes).InUse now :=
  ⟨neat_empty ttl maxBytes maxEntryBytes, .nil, fun _ he => nomatch he⟩

theorem InUse.later {c : TtlCache} {now later : Nat} (h : c.InUse now) (hle : now ≤ later) :
    c.InUse later := by
  refine ⟨h.neat, h.ordered, fun e he => ?_⟩
  have hbound := h.bounded e he
  unfold expiryAt at hbound ⊢
  omega

theorem InUse.keep {c : TtlCache} {now : Nat} (h : c.InUse now) (test : CacheEntry → Bool) :
    (c.keep test).InUse now :=
  ⟨h.neat.keep test, h.ordered.sublist List.filter_sublist,
    fun e he => h.bounded e (List.mem_filter.1 he).1⟩

/-- The entries of other keys and then one that is written now stand in order. -/
theorem InUse.ordered_written {c : TtlCache} {now : Nat} (h : c.InUse now) (key : String)
    (value : Bytes) :
    (c.entries.filter (·.key != key) ++ [(⟨key, value, c.expiryAt now⟩ : CacheEntry)]).Pairwise
      fun a b => a.expiresAt ≤ b.expiresAt := by
  refine List.pairwise_append.2 ⟨h.ordered.sublist List.filter_sublist,
    List.pairwise_singleton _ _, fun a ha b hb => ?_⟩
  rw [List.mem_singleton.1 hb]
  exact h.bounded a (List.mem_filter.1 ha).1

theorem InUse.writes {c after : TtlCache} {now : Nat} (h : c.InUse now) {key : String}
    {value : Bytes} (hw : c.Writes ⟨key, value, c.expiryAt now⟩ after) : after.InUse now := by
  refine ⟨hw.neat, (h.ordered_written key value).sublist hw.last.sublist, fun e he => ?_⟩
  have hexpiry : after.expiryAt now = c.expiryAt now := by
    unfold expiryAt
    rw [hw.ttl]
  rw [hexpiry]
  rcases List.mem_append.1 (hw.last.subset he) with he | he
  · exact h.bounded e (List.mem_filter.1 he).1
  · obtain rfl := List.mem_singleton.1 he
    exact Nat.le_refl _

theorem InUse.serve {c : TtlCache} {now : Nat} (h : c.InUse now) (request : CacheRequest) :
    (c.serve now request).1.InUse now := by
  cases request with
  | get key =>
    show (c.get key now).1.InUse now
    rw [h.neat.get_eq]
    exact h.keep _
  | set key value =>
    cases hset : c.set key value now with
    | ok c' =>
      rw [serve_set_ok hset]
      exact h.writes (h.neat.writes hset)
    | error e =>
      rw [serve_set_error hset]
      exact h
  | remove key =>
    show (c.remove key).InUse now
    rw [h.neat.remove_eq]
    exact h.keep _
  | purge =>
    show (c.purge now).1.InUse now
    rw [h.neat.purge_eq]
    exact h.keep _

theorem InUse.after {c : TtlCache} {start : Nat} (h : c.InUse start) {run : CacheRun}
    (htime : run.Timely) (hstart : ∀ e ∈ run, start ≤ e.1) : ∃ now, (c.after run).InUse now := by
  induction run generalizing c start with
  | nil => exact ⟨start, h⟩
  | cons e rest ih =>
    obtain ⟨now, request⟩ := e
    obtain ⟨hrest, htimely⟩ := List.pairwise_cons.1 htime
    rw [List.forall_mem_cons] at hstart
    exact ih ((h.later hstart.1).serve request) htimely hrest

/-! ## 2. What is live -/

/-- The live entries. -/
def live (c : TtlCache) (now : Nat) : List CacheEntry := c.entries.filter (·.isLive now)

/-- What is live later is live before. -/
theorem live_later (c : TtlCache) {now later : Nat} (h : now ≤ later) :
    c.live later = (c.live now).filter (·.isLive later) := by
  rw [live, live, List.filter_filter]
  refine List.filter_congr fun e _ => ?_
  unfold CacheEntry.isLive
  by_cases hlive : later < e.expiresAt
  · simp [hlive, Nat.lt_of_le_of_lt h hlive]
  · simp [hlive]

theorem live_keep (c : TtlCache) (test : CacheEntry → Bool) (now : Nat) :
    (c.keep test).live now = (c.live now).filter test := by
  show (c.entries.filter test).filter _ = (c.entries.filter _).filter test
  rw [List.filter_filter, List.filter_filter]
  exact List.filter_congr fun e _ => Bool.and_comm _ _

/-- A read finds what is live. -/
theorem get_eq_find?_live {c : TtlCache} (hd : c.Distinct) (key : String) (now : Nat) :
    (c.get key now).2 = ((c.live now).find? (·.key == key)).map (·.value) := by
  have hlive : ∀ e, (c.live now).find? (·.key == key) = some e ↔
      c.find? key = some e ∧ e.isLive now = true := by
    intro e
    have hlive : (c.live now).Pairwise fun a b => a.key ≠ b.key := hd.sublist List.filter_sublist
    constructor
    · intro h
      have hkey : e.key = key := by simpa using List.find?_some h
      obtain ⟨hmem, hlive⟩ := List.mem_filter.1 (List.mem_of_find?_eq_some h)
      exact ⟨hkey ▸ find?_of_mem hd hmem, hlive⟩
    · rintro ⟨h, he⟩
      have hkey : e.key = key := by simpa using List.find?_some h
      exact hkey ▸ find?_of_mem hlive (List.mem_filter.2 ⟨List.mem_of_find?_eq_some h, he⟩)
  apply Option.ext
  intro value
  rw [Option.map_eq_some_iff]
  constructor
  · intro h
    obtain ⟨e, he, hvalue, hl⟩ := entry_of_get h
    exact ⟨e, (hlive e).2 ⟨he, hl⟩, hvalue⟩
  · rintro ⟨e, he, rfl⟩
    obtain ⟨hfind, hl⟩ := (hlive e).1 he
    unfold get
    rw [hfind]
    dsimp only
    rw [if_pos hl]

/-- What is live is a run of last entries. -/
theorem live_suffix {es : List CacheEntry} (h : es.Pairwise fun a b => a.expiresAt ≤ b.expiresAt)
    (now : Nat) : es.filter (·.isLive now) <:+ es := by
  induction es with
  | nil => exact List.suffix_refl _
  | cons e rest ih =>
    obtain ⟨hfirst, hrest⟩ := List.pairwise_cons.1 h
    by_cases he : e.isLive now = true
    · have hall : ∀ x ∈ e :: rest, x.isLive now = true := by
        intro x hx
        rcases List.mem_cons.1 hx with rfl | hx
        · exact he
        · have hle := hfirst x hx
          unfold CacheEntry.isLive at he ⊢
          rw [decide_eq_true_eq] at he ⊢
          omega
      exact ⟨[], List.filter_eq_self.2 hall⟩
    · rw [List.filter_cons_of_neg (by exact he)]
      exact (ih hrest).trans (List.suffix_cons e rest)

/-! ## 3. What a write keeps -/

/-- The longest run of last entries that fits. -/
structure Longest (max : Nat) (es kept : List CacheEntry) : Prop where
  last : kept <:+ es
  fits : octetsOf kept ≤ max
  longest : ∀ last, last <:+ es → octetsOf last ≤ max → last <:+ kept

theorem Longest.unique {max : Nat} {es kept other : List CacheEntry} (h : Longest max es kept)
    (ho : Longest max es other) : kept = other :=
  (ho.longest kept h.last h.fits).eq_of_length
    (Nat.le_antisymm (ho.longest kept h.last h.fits).length_le
      (h.longest other ho.last ho.fits).length_le)

theorem Writes.longest_run {c after : TtlCache} {e : CacheEntry} (h : c.Writes e after) :
    Longest c.maxBytes (c.entries.filter (·.key != e.key) ++ [e]) after.entries :=
  ⟨h.last, h.fits, h.longest⟩

/-- Where what passes a test is a run of last entries, the longest of its runs that fits is what
    passes of the longest run of all that fits. -/
theorem Longest.filter {max : Nat} {es kept : List CacheEntry} (h : Longest max es kept)
    {test : CacheEntry → Bool} (htest : es.filter test <:+ es) :
    Longest max (es.filter test) (kept.filter test) := by
  rcases Nat.le_total kept.length (es.filter test).length with hle | hle
  · -- All that is kept passes.
    have hkept : kept <:+ es.filter test := List.suffix_of_suffix_length_le h.last htest hle
    have hall : kept.filter test = kept :=
      List.filter_eq_self.2 fun e he => (List.mem_filter.1 (hkept.subset he)).2
    rw [hall]
    exact ⟨hkept, h.fits, fun last hlast => h.longest last (hlast.trans htest)⟩
  · -- All that passes is kept.
    have hpasses : es.filter test <:+ kept := List.suffix_of_suffix_length_le htest h.last hle
    have hall : kept.filter test = es.filter test := by
      have hless : (kept.filter test).Sublist (es.filter test) := h.last.sublist.filter test
      have hmore : (es.filter test).Sublist (kept.filter test) := by
        have hfiltered := hpasses.sublist.filter test
        rwa [List.filter_filter, List.filter_congr fun e _ => Bool.and_self (test e)] at hfiltered
      exact hless.eq_of_length_le hmore.length_le
    have hfits : octetsOf (es.filter test) ≤ max := by
      obtain ⟨before, rfl⟩ := hpasses
      have hsum := h.fits
      rw [octetsOf_append] at hsum
      omega
    rw [hall]
    exact ⟨List.suffix_refl _, hfits, fun last hlast _ => hlast⟩

/-- The live entries after a write are the longest run of the live ones and the new one that fits,
    if the new one is live at all. -/
theorem InUse.longest_live {c after : TtlCache} {now : Nat} (h : c.InUse now) {key : String}
    {value : Bytes} (hset : c.set key value now = .ok after) :
    Longest c.maxBytes ((c.live now).filter (·.key != key) ++
      [(⟨key, value, c.expiryAt now⟩ : CacheEntry)].filter (·.isLive now)) (after.live now) := by
  have hlongest := (h.neat.writes hset).longest_run.filter
    (live_suffix (h.ordered_written key value) now)
  rw [List.filter_append, List.filter_filter, List.filter_congr fun e _ => Bool.and_comm _ _,
    ← List.filter_filter] at hlongest
  exact hlongest

/-! ## 4. Two caches in which the same is live -/

/-- Two caches of one kind in which the same is live, whatever else there is. -/
structure Agree (a b : TtlCache) (now : Nat) : Prop where
  ttl : a.ttl = b.ttl
  maxBytes : a.maxBytes = b.maxBytes
  maxEntryBytes : a.maxEntryBytes = b.maxEntryBytes
  left : a.InUse now
  right : b.InUse now
  live : a.live now = b.live now

theorem Agree.later {a b : TtlCache} {now later : Nat} (h : Agree a b now) (hle : now ≤ later) :
    Agree a b later := by
  refine ⟨h.ttl, h.maxBytes, h.maxEntryBytes, h.left.later hle, h.right.later hle, ?_⟩
  rw [live_later a hle, live_later b hle, h.live]

/-- Dropping entries by one test keeps two caches in agreement. -/
theorem Agree.keep {a b : TtlCache} {now : Nat} (h : Agree a b now) (test : CacheEntry → Bool) :
    Agree (a.keep test) (b.keep test) now :=
  ⟨h.ttl, h.maxBytes, h.maxEntryBytes, h.left.keep test, h.right.keep test, by
    rw [live_keep, live_keep, h.live]⟩

/-- A purge drops nothing that is live. -/
theorem Agree.purge {a b : TtlCache} {now : Nat} (h : Agree a b now) :
    Agree (a.purge now).1 b now := by
  rw [h.left.neat.purge_eq]
  refine ⟨h.ttl, h.maxBytes, h.maxEntryBytes, h.left.keep _, h.right, ?_⟩
  rw [live_keep, ← h.live, List.filter_eq_self]
  exact fun e he => (List.mem_filter.1 he).2

/-- A write is refused by both or by none, and then both keep the same live entries. -/
theorem Agree.set {a b a' b' : TtlCache} {now : Nat} (h : Agree a b now) {key : String}
    {value : Bytes} (ha : a.set key value now = .ok a') (hb : b.set key value now = .ok b') :
    Agree a' b' now := by
  have hwa := h.left.neat.writes ha
  have hwb := h.right.neat.writes hb
  have hexpiry : a.expiryAt now = b.expiryAt now := by
    unfold expiryAt
    rw [h.ttl]
  have hla := h.left.longest_live ha
  rw [h.maxBytes, h.live, hexpiry] at hla
  exact
    { ttl := (hwa.ttl.trans h.ttl).trans hwb.ttl.symm
      maxBytes := (hwa.maxBytes.trans h.maxBytes).trans hwb.maxBytes.symm
      maxEntryBytes := (hwa.maxEntryBytes.trans h.maxEntryBytes).trans hwb.maxEntryBytes.symm
      left := h.left.writes hwa
      right := h.right.writes hwb
      live := hla.unique (h.right.longest_live hb) }

/-- A refusal depends on the limit for one entry alone. -/
theorem set_eq_error {c : TtlCache} {key : String} {value : Bytes} {now : Nat} {e : CacheLimit} :
    c.set key value now = .error e ↔
      c.maxEntryBytes < entrySize key value ∧
        e = .entryTooLarge (entrySize key value) c.maxEntryBytes := by
  simp only [set]
  split
  · rename_i hlarge
    simp [hlarge, eq_comm]
  · rename_i hfits
    simp [hfits]

/-- Every request but a purge is answered alike, and keeps two caches in agreement. -/
theorem Agree.serve {a b : TtlCache} {now : Nat} (h : Agree a b now) {request : CacheRequest}
    (hr : request ≠ .purge) : (a.serve now request).2 = (b.serve now request).2 ∧
      Agree (a.serve now request).1 (b.serve now request).1 now := by
  cases request with
  | purge => exact absurd rfl hr
  | get key =>
    constructor
    · show CacheAnswer.got _ = CacheAnswer.got _
      rw [get_eq_find?_live h.left.neat.distinct, get_eq_find?_live h.right.neat.distinct, h.live]
    · show Agree (a.get key now).1 (b.get key now).1 now
      rw [h.left.neat.get_eq, h.right.neat.get_eq]
      exact h.keep _
  | remove key =>
    refine ⟨rfl, ?_⟩
    show Agree (a.remove key) (b.remove key) now
    rw [h.left.neat.remove_eq, h.right.neat.remove_eq]
    exact h.keep _
  | set key value =>
    cases ha : a.set key value now with
    | error e =>
      have hb : b.set key value now = .error e := by
        rw [set_eq_error, ← h.maxEntryBytes, ← set_eq_error]
        exact ha
      rw [serve_set_error ha, serve_set_error hb]
      exact ⟨rfl, h⟩
    | ok a' =>
      have hfits : b.Fits key value := by
        have hfits := (set_isOk a key value now).1 ⟨a', ha⟩
        unfold Fits at hfits ⊢
        rwa [← h.maxEntryBytes]
      obtain ⟨b', hb⟩ := (set_isOk b key value now).2 hfits
      rw [serve_set_ok ha, serve_set_ok hb]
      exact ⟨rfl, h.set ha hb⟩

/-- Purges change no other answer, wherever they stand in a run. -/
theorem Agree.answers {a b : TtlCache} {start : Nat} (h : Agree a b start) {run : CacheRun}
    (htime : run.Timely) (hstart : ∀ e ∈ run, start ≤ e.1) :
    (a.answers run).filter (·.1 ≠ .purge) = b.answers (run.filter (·.2 ≠ .purge)) := by
  induction run generalizing a b start with
  | nil => rfl
  | cons e rest ih =>
    obtain ⟨now, request⟩ := e
    obtain ⟨hrest, htimely⟩ := List.pairwise_cons.1 htime
    rw [List.forall_mem_cons] at hstart
    have hnow := h.later hstart.1
    by_cases hr : request = .purge
    · subst hr
      exact ih hnow.purge htimely hrest
    · obtain ⟨hanswer, hnext⟩ := hnow.serve hr
      have htail := ih hnext htimely hrest
      simp only [TtlCache.answers, List.filter_cons, ne_eq, hr, not_false_eq_true, decide_true,
        if_true]
      rw [hanswer]
      exact congrArg _ htail

/-- For any lifetime and limits, and for every run in which the clock does not go back: without its
    purges the run would have had the same answers, although until it is purged an entry that has
    expired counts like any other. -/
theorem purges_invisible (ttl maxBytes maxEntryBytes : Nat) (run : CacheRun)
    (htime : run.Timely) :
    ((empty ttl maxBytes maxEntryBytes).answers run).filter (·.1 ≠ .purge) =
        (empty ttl maxBytes maxEntryBytes).answers (run.filter (·.2 ≠ .purge)) ∧
      ((empty ttl maxBytes maxEntryBytes).after run).bytes =
        octetsOf ((empty ttl maxBytes maxEntryBytes).after run).entries := by
  have hfresh := inUse_empty ttl maxBytes maxEntryBytes 0
  have hagree : Agree (empty ttl maxBytes maxEntryBytes) (empty ttl maxBytes maxEntryBytes) 0 :=
    ⟨rfl, rfl, rfl, hfresh, hfresh, rfl⟩
  obtain ⟨_, hused⟩ := hfresh.after htime fun _ _ => Nat.zero_le _
  exact ⟨hagree.answers htime fun _ _ => Nat.zero_le _, hused.neat.counted⟩

/-- An entry expires and is purged before two others are written, for which all three there would
    be no room. -/
def purgedRun : CacheRun :=
  [(0, .set "a" [1]), (10, .get "a"), (10, .set "a" [2]), (20, .purge), (20, .set "b" [3]),
    (21, .set "c" [4]), (22, .get "b")]

/-- The count differs as long as the entry is there: without the purge it leaves for the last
    write. -/
theorem purges_invisible_of_expired :
    purgedRun.Timely ∧
      ((empty 10 4 4).after (purgedRun.take 5)).bytes = 2 ∧
      ((empty 10 4 4).after ((purgedRun.take 5).filter (·.2 ≠ .purge))).bytes = 4 ∧
      ((empty 10 4 4).answers purgedRun).filter (·.1 ≠ .purge) =
        (empty 10 4 4).answers (purgedRun.filter (·.2 ≠ .purge)) ∧
      ((empty 10 4 4).after purgedRun).bytes =
        octetsOf ((empty 10 4 4).after purgedRun).entries := by
  have htime : purgedRun.Timely := by
    unfold CacheRun.Timely
    decide
  exact ⟨htime, by decide +kernel, by decide +kernel, purges_invisible 10 4 4 purgedRun htime⟩

end TtlCache

end SignedRecords
