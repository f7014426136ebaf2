import Mathlib.Data.Finset.Card
import SignedRecords.Proofs.NeutralKey
import SignedRecords.Proofs.SequentialCalls

/-!
# How long an id stays refused

A mark is an id and one octet, and all marks are of one size. A mark leaves its cache when it is no
longer live, when a publish of its id has written, and when it does not fit any more together with
the marks that were set after it. So it stays for its lifetime as long as few other ids are marked.

Main statement: `missing_marks_in_runs`.
-/

namespace SignedRecords

/-! ## 1. An entry and those written after it -/

namespace TtlCache

/-- An id has an entry that lives until a moment at least, and all that was written after it are
    entries of some other keys. -/
def Guards (c : TtlCache) (id : String) (limit : Nat) (others : List String) : Prop :=
  ∃ before e after, c.entries = before ++ e :: after ∧ e.key = id ∧ limit ≤ e.expiresAt ∧
    ∀ x ∈ after, x.key ∈ others

variable {c : TtlCache} {id : String} {limit : Nat} {others : List String}

theorem Guards.keep (h : c.Guards id limit others) {test : CacheEntry → Bool}
    (htest : ∀ e, e.key = id → limit ≤ e.expiresAt → test e = true) :
    (c.keep test).Guards id limit others := by
  obtain ⟨before, e, after, hsplit, hkey, hlimit, hothers⟩ := h
  refine ⟨before.filter test, e, after.filter test, ?_, hkey, hlimit,
    fun x hx => hothers x (List.mem_of_mem_filter hx)⟩
  rw [TtlCache.keep, hsplit, List.filter_append,
    List.filter_cons_of_pos (htest e hkey hlimit)]

theorem Guards.live (h : c.Guards id limit others) (hd : c.Distinct) {now : Nat}
    (hnow : now < limit) : c.Live id now := by
  obtain ⟨before, e, after, hsplit, rfl, hlimit, -⟩ := h
  have hmem : e ∈ c.entries := by simp [hsplit]
  have hlive : e.isLive now = true := decide_eq_true (Nat.lt_of_lt_of_le hnow hlimit)
  exact live_of_mem hd hmem hlive

theorem octetsOf_of_size {es : List CacheEntry} {size : Nat} (h : ∀ e ∈ es, e.size = size) :
    octetsOf es = es.length * size := by
  induction es with
  | nil => exact (Nat.zero_mul _).symm
  | cons e rest ih =>
    rw [List.forall_mem_cons] at h
    rw [octetsOf, h.1, ih h.2, List.length_cons, Nat.succ_mul, Nat.add_comm]

/-- There are no more entries than keys. -/
theorem length_le_card {es : List CacheEntry} (hd : es.Pairwise fun a b => a.key ≠ b.key)
    {keys : Finset String} (h : ∀ e ∈ es, e.key ∈ keys) : es.length ≤ keys.card := by
  have hnodup : (es.map (·.key)).Nodup := List.pairwise_map.2 hd
  have hsubset : (es.map (·.key)).toFinset ⊆ keys := by
    intro key hkey
    obtain ⟨e, he, rfl⟩ := List.mem_map.1 (List.mem_toFinset.1 hkey)
    exact h e he
  calc es.length = (es.map (·.key)).length := List.length_map _ |>.symm
    _ = (es.map (·.key)).toFinset.card := (List.toFinset_card_of_nodup hnodup).symm
    _ ≤ keys.card := Finset.card_le_card hsubset

/-- A write of another key leaves an entry that fits with those after it. -/
theorem Guards.writes (h : c.Guards id limit others) (hneat : c.Neat) {e : CacheEntry}
    {after : TtlCache} (hw : c.Writes e after) {size : Nat}
    (hsizes : ∀ x ∈ c.entries, x.size = size) (hsize : e.size = size) (hne : e.key ≠ id)
    (hroom : (((e.key :: others).toFinset.erase id).card + 1) * size ≤ c.maxBytes) :
    after.Guards id limit (e.key :: others) := by
  obtain ⟨before, first, rest, hsplit, hkey, hlimit, hothers⟩ := h
  let since := rest.filter (·.key != e.key) ++ [e]
  have hwritten : c.entries.filter (·.key != e.key) ++ [e] =
      before.filter (·.key != e.key) ++ first :: since := by
    have hstays : (first.key != e.key) = true := bne_iff_ne.2 fun heq => hne (heq ▸ hkey)
    rw [hsplit, List.filter_append, List.filter_cons_of_pos (by exact hstays)]
    simp [since]
  have hdistinct : (before.filter (·.key != e.key) ++ first :: since).Pairwise
      fun a b => a.key ≠ b.key := by
    have hall := distinct_written hneat.distinct e
    rw [hneat.remove_eq] at hall
    exact hwritten ▸ hall
  obtain ⟨hfirst, hsince⟩ := List.pairwise_cons.1 (List.pairwise_append.1 hdistinct).2.1
  have hkeys : ∀ x ∈ since, x.key ∈ e.key :: others := by
    intro x hx
    rcases List.mem_append.1 hx with hx | hx
    · exact List.mem_cons_of_mem _ (hothers x (List.mem_of_mem_filter hx))
    · rw [List.mem_singleton.1 hx]
      exact List.mem_cons_self
  have hcount : since.length ≤ ((e.key :: others).toFinset.erase id).card := by
    refine length_le_card hsince fun x hx => Finset.mem_erase.2 ⟨fun heq => ?_, ?_⟩
    · exact hfirst x hx (hkey.trans heq.symm)
    · exact List.mem_toFinset.2 (hkeys x hx)
  have hoctets : octetsOf (first :: since) = (since.length + 1) * size := by
    refine octetsOf_of_size fun x hx => ?_
    have hmem : x ∈ c.entries.filter (·.key != e.key) ++ [e] :=
      hwritten ▸ List.mem_append_right _ hx
    rcases List.mem_append.1 hmem with hx | hx
    · exact hsizes x (List.mem_of_mem_filter hx)
    · rw [List.mem_singleton.1 hx]
      exact hsize
  have hfits : octetsOf (first :: since) ≤ c.maxBytes := by
    rw [hoctets]
    exact Nat.le_trans (Nat.mul_le_mul_right size (Nat.succ_le_succ hcount)) hroom
  obtain ⟨dropped, hkept⟩ := hw.longest (first :: since) ⟨_, hwritten.symm⟩ hfits
  exact ⟨dropped, first, since, hkept.symm, hkey, hlimit, hkeys⟩

/-- A write of the key itself begins anew. -/
theorem Writes.guards {e : CacheEntry} {after : TtlCache} (hw : c.Writes e after)
    (hfits : e.size ≤ c.maxBytes) (others : List String) :
    after.Guards e.key e.expiresAt others := by
  obtain ⟨dropped, hkept⟩ := hw.longest [e] (List.suffix_append _ _) hfits
  exact ⟨dropped, e, [], hkept.symm, rfl, Nat.le_refl _, fun _ hx => nomatch hx⟩

end TtlCache

/-! ## 2. The cache of missing ids -/

/-- The octets of a mark: the 52 of an id, and one. -/
theorem size_mark (key : Octets 32) (expiresAt : Nat) :
    (⟨recordId key, missingMark, expiresAt⟩ : CacheEntry).size = 53 := by
  rw [CacheEntry.size, entrySize, utf8ByteSize_recordId]
  rfl

/-- A cache of missing ids with the settings of a service. -/
structure MarksOf (config : ServiceConfig) (c : TtlCache) : Prop where
  neat : c.Neat
  ttl : c.ttl = config.negativeTtl
  maxBytes : c.maxBytes = config.negativeSize
  maxEntryBytes : 53 ≤ c.maxEntryBytes
  size : ∀ e ∈ c.entries, e.size = 53

theorem marksOf_empty (config : ServiceConfig) :
    MarksOf config
      (.empty config.negativeTtl config.negativeSize ServiceConfig.maxCacheEntry) where
  neat := TtlCache.neat_empty _ _ _
  ttl := rfl
  maxBytes := rfl
  maxEntryBytes := by
    simp only [TtlCache.empty, ServiceConfig.negativeSize, ServiceConfig.maxCacheEntry]
    omega
  size _ he := nomatch he

theorem MarksOf.keep {config : ServiceConfig} {c : TtlCache} (h : MarksOf config c)
    (test : CacheEntry → Bool) : MarksOf config (c.keep test) :=
  { h with
    neat := h.neat.keep test
    size := fun e he => h.size e (List.mem_of_mem_filter he) }

/-- A mark fits into the cache. -/
theorem MarksOf.size_le {config : ServiceConfig} {c : TtlCache} (h : MarksOf config c)
    (key : Octets 32) (expiresAt : Nat) :
    (⟨recordId key, missingMark, expiresAt⟩ : CacheEntry).size ≤ c.maxBytes := by
  rw [size_mark, h.maxBytes, ServiceConfig.negativeSize]
  omega

namespace ServiceMachine

/-- A service whose marks are of canonical ids. -/
structure Marking (config : ServiceConfig) (m : ServiceMachine) : Prop where
  marks : MarksOf config m.service.negative
  canonical : m.SeeksCanonical

variable {config : ServiceConfig} {m : ServiceMachine} {event : ServiceEvent} {id : String}

theorem marking_fresh (config : ServiceConfig) (store : Store) :
    (ofService (.fresh config store)).Marking config where
  marks := marksOf_empty config
  canonical := seeksCanonical_ofService _

/-- Every mark that is to be set is set. -/
theorem Marking.mark (h : m.Marking config) (hm : m.marks? event = some id) (now : Nat) :
    m.service.negative.Writes ⟨id, missingMark, now + config.negativeTtl⟩
        (m.service.markMissing id now).negative ∧
      MarksOf config (m.service.markMissing id now).negative := by
  obtain ⟨-, -, call, hw, -⟩ := step_of_marks now hm
  obtain ⟨key, rfl⟩ := h.canonical call id (.inr hw)
  have hfits : m.service.negative.Fits (recordId key) missingMark :=
    Nat.le_trans (Nat.le_of_eq (size_mark key 0)) h.marks.maxEntryBytes
  obtain ⟨c, hset⟩ := (TtlCache.set_isOk _ _ _ now).2 hfits
  have hafter : (m.service.markMissing (recordId key) now).negative = c := by
    rw [Service.markMissing, TtlCache.markMissing, hset]
  have hwrites := h.marks.neat.writes hset
  rw [TtlCache.expiryAt, h.marks.ttl] at hwrites
  rw [hafter]
  refine ⟨hwrites, hwrites.neat, hwrites.ttl.trans h.marks.ttl,
    hwrites.maxBytes.trans h.marks.maxBytes, ?_, fun e he => ?_⟩
  · rw [hwrites.maxEntryBytes]
    exact h.marks.maxEntryBytes
  · rcases List.mem_append.1 (hwrites.last.subset he) with he | he
    · exact h.marks.size e (List.mem_of_mem_filter he)
    · rw [List.mem_singleton.1 he]
      exact size_mark key _

theorem Marking.step (h : m.Marking config) (now : Nat) (event : ServiceEvent) :
    (m.step now event).1.Marking config := by
  constructor
  case marks =>
    have hr := m.remarks_step now event
    generalize (m.step now event).1.service.negative = c at hr
    cases hr with
    | keeps => exact h.marks
    | looks =>
      rw [h.marks.neat.get_eq]
      exact h.marks.keep _
    | clears =>
      rw [h.marks.neat.remove_eq]
      exact h.marks.keep _
    | marks hm => exact (h.mark hm now).2
    | purges =>
      rw [h.marks.neat.purge_eq]
      exact h.marks.keep _
  case canonical => exact seeksCanonical_step h.canonical now event

theorem Marking.after (h : m.Marking config) (history : History) :
    (m.after history).Marking config := by
  induction history with
  | nil => exact h
  | cons e past ih => exact ih.step e.1 e.2

/-! ## 3. While other ids are marked -/

/-- The ids that were marked as missing in a history, the last first. -/
def markedIn (m : ServiceMachine) : History → List String
  | [] => []
  | (_, event) :: past => ((m.after past).marks? event).toList ++ m.markedIn past

/-- A mark outlasts every event before its limit, unless a publish of its id has written. -/
theorem Marking.guards_step (h : m.Marking config) {limit : Nat} {others : List String}
    (hg : m.service.negative.Guards id limit others) {now : Nat} (hnow : now < limit)
    (hlimit : limit ≤ now + config.negativeTtl)
    (hno : ∀ record, m.brings? event ≠ some (.published id record))
    (hroom : ((((m.marks? event).toList ++ others).toFinset.erase id).card + 1) * 53 ≤
      config.negativeSize) :
    (m.step now event).1.service.negative.Guards id limit
      ((m.marks? event).toList ++ others) := by
  -- Only the marks set by this event are new; all other cases drop entries at most.
  have hsame : ∀ {c : TtlCache}, c.Guards id limit others →
      c.Guards id limit ((m.marks? event).toList ++ others) := by
    rintro c ⟨before, e, after, hsplit, hkey, hlive, hothers⟩
    exact ⟨before, e, after, hsplit, hkey, hlive,
      fun x hx => List.mem_append_right _ (hothers x hx)⟩
  have hlive : ∀ e : CacheEntry, limit ≤ e.expiresAt → e.isLive now = true :=
    fun e he => decide_eq_true (Nat.lt_of_lt_of_le hnow he)
  have hr := m.remarks_step now event
  generalize (m.step now event).1.service.negative = c at hr
  cases hr with
  | keeps => exact hsame hg
  | looks =>
    rw [h.marks.neat.get_eq]
    refine hsame (hg.keep fun e _ he => ?_)
    rw [hlive e he, Bool.or_true]
  | @clears _ cleared record hb =>
    rw [h.marks.neat.remove_eq]
    refine hsame (hg.keep fun e hkey _ => bne_iff_ne.2 fun heq => ?_)
    exact hno record (by rw [hb, ← heq, hkey])
  | @marks _ marked hm =>
    obtain ⟨hwrites, -⟩ := h.mark hm now
    obtain ⟨-, -, call, hw, -⟩ := step_of_marks now hm
    obtain ⟨key, rfl⟩ := h.canonical call marked (.inr hw)
    rw [hm, Option.toList_some, List.singleton_append] at hroom ⊢
    by_cases hid : recordId key = id
    · obtain ⟨before, e, after, hsplit, hkey, hexpires, hothers⟩ :=
        hwrites.guards (h.marks.size_le key _) (recordId key :: others)
      exact ⟨before, e, after, hsplit, hkey.trans hid, Nat.le_trans hlimit hexpires, hothers⟩
    · exact hg.writes h.marks.neat hwrites h.marks.size (size_mark key _) hid
        (h.marks.maxBytes.symm ▸ hroom)
  | purges =>
    rw [h.marks.neat.purge_eq]
    exact hsame (hg.keep fun e _ he => hlive e he)

theorem Marking.guards_after (h : m.Marking config) {limit : Nat}
    (hg : m.service.negative.Guards id limit []) {later : History}
    (htimes : ∀ e ∈ later, e.1 < limit ∧ limit ≤ e.1 + config.negativeTtl)
    (hno : ∀ record, .published id record ∉ m.broughtIn later)
    (hroom : (((m.markedIn later).toFinset.erase id).card + 1) * 53 ≤ config.negativeSize) :
    (m.after later).service.negative.Guards id limit (m.markedIn later) := by
  induction later with
  | nil => exact hg
  | cons e past ih =>
    obtain ⟨now, event⟩ := e
    obtain ⟨⟨hnow, hlimit⟩, hpast⟩ := List.forall_mem_cons.1 htimes
    have hfewer : ((m.markedIn past).toFinset.erase id).card ≤
        ((m.markedIn ((now, event) :: past)).toFinset.erase id).card := by
      refine Finset.card_le_card (Finset.erase_subset_erase _ fun key hkey => ?_)
      rw [List.mem_toFinset] at hkey ⊢
      exact List.mem_append_right _ hkey
    have hbefore := ih hpast (fun record hmem => hno record (List.mem_append_right _ hmem))
      (by omega)
    refine (h.after past).guards_step hbefore hnow hlimit (fun record hb => ?_) hroom
    exact hno record (List.mem_append_left _ (Option.mem_toList.2 hb))

/-- An id that is answered as not found is marked. -/
theorem marks_of_notFound {now call : Nat}
    (h : .replies call .notFound ∈ (m.step now event).2) (hid : m.seeks? event = some id) :
    m.marks? event = some id := by
  cases event with
  | publish c text record => cases hid
  | get c text =>
    obtain ⟨-, hnext⟩ := replies_follow.1 h
    obtain ⟨e, he⟩ | ⟨key, -, ⟨r, hr, -⟩ | ⟨hw, -⟩⟩ := Service.get_next hnext
    · cases he
    · cases hr
    · cases hw
  | store c turn =>
    simp only [ServiceMachine.step] at h
    split at h
    · rename_i hw
      simp only [seeks?, hw] at hid
      cases hid
    · rename_i sought hw
      obtain ⟨-, hnext⟩ := (m.replies_followPut c _ call _).1 h
      obtain rfl : sought = id := by simpa [seeks?, hw] using hid
      unfold Service.readBack at hnext
      split at hnext
      · cases hnext
      · rename_i hrun
        simp only [marks?, hw, hrun]
      · cases hnext
    · cases h
  | lookup c turn =>
    simp only [ServiceMachine.step] at h
    split at h
    · rename_i sought hw
      obtain ⟨-, hnext⟩ := replies_follow.1 h
      obtain ⟨full, -, -, heq⟩ | ⟨-, heq⟩ := m.service.lookedUp_cases now sought turn
      · rw [heq] at hnext
        cases hnext
      · rw [heq] at hnext
        cases hnext
    · cases h
  | put number how => cases hid
  | purge => cases hid

/-- A get has found an id nowhere, and since then nothing has taken the mark away: it is within
    its lifetime, no publish of the id has written, and the marks of all other ids that were set
    since fit into the cache together with it. -/
structure MissedSince (config : ServiceConfig) (m : ServiceMachine) (later : History)
    (moment : Nat) (event : ServiceEvent) (before : History) (id : String) (now : Nat) : Prop where
  timely : History.Timely (later ++ (moment, event) :: before)
  past : ∀ e ∈ later, e.1 ≤ now
  seeks : (m.after before).seeks? event = some id
  missed : ∃ call, .replies call .notFound ∈ ((m.after before).step moment event).2
  early : now < moment + config.negativeTtl
  unpublished : ∀ record, .published id record ∉
    (m.after ((moment, event) :: before)).broughtIn later
  room : ((((m.after ((moment, event) :: before)).markedIn later).toFinset.erase id).card + 1) *
    53 ≤ max (config.cacheSize / 16) 65536

/-- Right after the answer the mark is the last one. -/
theorem Marking.guards_of_marks (h : m.Marking config) (hm : m.marks? event = some id)
    (now : Nat) :
    (m.step now event).1.service.negative.Guards id (now + config.negativeTtl) [] := by
  obtain ⟨hwrites, -⟩ := h.mark hm now
  obtain ⟨-, hnegative, call, hw, -⟩ := step_of_marks now hm
  obtain ⟨key, rfl⟩ := h.canonical call id (.inr hw)
  have hguards := hwrites.guards (h.marks.size_le key _) []
  rwa [← hnegative] at hguards

theorem Marking.live_of_missedSince (h : m.Marking config) {later before : History}
    {moment now : Nat} (hmissed : MissedSince config m later moment event before id now) :
    (m.after (later ++ (moment, event) :: before)).service.negative.Live id now := by
  obtain ⟨htime, hpast, hseeks, ⟨call, hreply⟩, hearly, hno, hroom⟩ := hmissed
  have hm := marks_of_notFound hreply hseeks
  have hset : (m.after ((moment, event) :: before)).service.negative.Guards id
      (moment + config.negativeTtl) [] := (h.after before).guards_of_marks hm moment
  have htimes : ∀ e ∈ later, e.1 < moment + config.negativeTtl ∧
      moment + config.negativeTtl ≤ e.1 + config.negativeTtl := by
    intro e he
    have hsince : moment ≤ e.1 := (List.pairwise_append.1 htime).2.2 e he _ List.mem_cons_self
    have hnow := hpast e he
    omega
  have hafter := h.after (later ++ (moment, event) :: before)
  rw [after_append] at hafter ⊢
  exact ((h.after _).guards_after hset htimes hno hroom).live hafter.marks.neat.distinct hearly

end ServiceMachine

open ServiceMachine

/-- When calls come one after the other, at no moment an id is marked as missing while its response
    is cached, and a get of a record that was published by the call before is not refused for a
    mark. And whatever the calls are, when an id was found nowhere, every get of a text that names
    its key is refused at once and changes nothing, as long as the mark lives, no publish of the id
    has written, and the other ids that were marked since leave room for it. -/
theorem missing_marks_in_runs (config : ServiceConfig) (store : Store) :
    (∀ (history : History) (now : Nat), history.Timely → (∀ e ∈ history, e.1 ≤ now) →
      (ofService (.fresh config store)).Sequential history →
        ((ofService (.fresh config store)).after history).service.Exclusive now ∧
        ∀ (r : Record) (text : String) (call : Nat) (id : String),
          (ofService (.fresh config store)).PublishedLast history r →
          readId text = .ok (r.key, r.id) →
          .replies call (.failed (.rateLimited id)) ∉
            (((ofService (.fresh config store)).after history).step now (.get call text)).2) ∧
    ∀ (later : History) (moment : Nat) (event : ServiceEvent) (before : History)
      (key : Octets 32) (now call : Nat) (text : String),
      MissedSince config (ofService (.fresh config store)) later moment event before
        (recordId key) now →
      readId text = .ok (key, recordId key) →
      ((ofService (.fresh config store)).after (later ++ (moment, event) :: before)).step now
          (.get call text) =
        ((ofService (.fresh config store)).after (later ++ (moment, event) :: before)).follow call
          ((ofService (.fresh config store)).after (later ++ (moment, event) :: before)).service
          (.replies (.failed (.rateLimited (recordId key)))) := by
  constructor
  · intro history now htime hnow hseq
    have hstart := settled_fresh config store
    exact ⟨(settled_after hstart htime hseq hnow).exclusive, fun r text call id hlast hid =>
      not_rateLimited hstart (writesValid_ofService _) htime hseq hlast hnow hid call id⟩
  · intro later moment event before key now call text hmissed hid
    have hlive := (marking_fresh config store).live_of_missedSince hmissed
    rw [step, Service.get_of_marked hid hlive]

/-- A get finds an id nowhere. -/
def missedGet : History :=
  [(2, .store 0 .proceeds), (1, .lookup 0 .timesOut), (0, .get 0 (recordId neutralKey))]

/-- A get finds an id nowhere and another one is refused, until the record is published. -/
theorem missing_marks_in_runs_of_published :
    ∃ (start : ServiceMachine) (r : Record) (publish : History),
      start = ofService (.fresh .standard (.memory .empty)) ∧ r = neutralRecord [1] 5 ∧
      publish = [(4, .store 1 .proceeds), (3, .publish 1 r.id r)] ∧
      History.Timely (publish ++ missedGet) ∧ start.Sequential (publish ++ missedGet) ∧
      start.PublishedLast (publish ++ missedGet) r ∧
      (start.after (publish ++ missedGet)).service.Exclusive 5 ∧
      (∀ id, .replies 2 (.failed (.rateLimited id)) ∉
        ((start.after (publish ++ missedGet)).step 5 (.get 2 r.id)).2) ∧
      MissedSince .standard start [] 2 (.store 0 .proceeds) missedGet.tail r.id 3 ∧
      (start.after missedGet).step 3 (.get 1 r.id) =
        (start.after missedGet).follow 1 (start.after missedGet).service
          (.replies (.failed (.rateLimited r.id))) := by
  let start := ofService (.fresh .standard (.memory .empty))
  let r := neutralRecord [1] 5
  let publish : History := [(4, .store 1 .proceeds), (3, .publish 1 r.id r)]
  have hr : r.validate = .ok () := validate_neutralRecord (by decide) (by decide)
  have hbegins := step_publish_of_valid (start.after missedGet) 3 1 hr (by decide +kernel)
  have htime : History.Timely (publish ++ missedGet) := by
    unfold History.Timely
    simp [publish, missedGet]
  have hnow : ∀ e ∈ publish ++ missedGet, e.1 ≤ 5 := by
    simp [publish, missedGet]
  have hseq : start.Sequential (publish ++ missedGet) := by
    have hfree : (start.after missedGet).calls = [] := by decide +kernel
    exact ⟨⟨⟨⟨⟨trivial, fun _ => rfl⟩, fun h => absurd rfl h⟩, fun h => absurd rfl h⟩,
      fun _ => hfree⟩, fun h => absurd rfl h⟩
  have hlast : start.PublishedLast (publish ++ missedGet) r := by
    refine ⟨[], 4, .store 1 .proceeds, (3, .publish 1 r.id r) :: missedGet, 1, rfl, ?_, ?_,
      List.forall_mem_nil _⟩
    · rw [after, hbegins]
      decide +kernel
    · rw [after, hbegins]
      decide +kernel
  have hmissed : MissedSince .standard start [] 2 (.store 0 .proceeds) missedGet.tail r.id 3 := by
    refine ⟨?_, List.forall_mem_nil _, by decide +kernel, ⟨0, by decide +kernel⟩, by decide,
      fun _ => List.not_mem_nil, by decide⟩
    unfold History.Timely
    simp [missedGet]
  have hmain := missing_marks_in_runs .standard (.memory .empty)
  obtain ⟨hexclusive, hfree⟩ := hmain.1 (publish ++ missedGet) 5 htime hnow hseq
  exact ⟨start, r, publish, rfl, rfl, rfl, htime, hseq, hlast, hexclusive,
    fun id => hfree r r.id 2 id hlast (readId_recordId r.key), hmissed,
    hmain.2 [] 2 (.store 0 .proceeds) missedGet.tail r.key 3 1 r.id hmissed
      (readId_recordId r.key)⟩

end SignedRecords
