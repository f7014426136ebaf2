import SignedRecords.Proofs.Cache

/-!
# What a cache keeps

A cache counts the octets of its entries one by one. Where the count is right, every operation but
a write keeps the entries that pass a test, and a write keeps the longest run of last entries that
fits: an entry leaves only when it does not fit together with all those written after it.

Main statements: `Neat.remove_eq`, `Neat.get_eq`, `Neat.purge_eq` and `Neat.writes`.
-/

namespace SignedRecords.TtlCache

/-- The octets that some entries take together. -/
def octetsOf : List CacheEntry → Nat
  | [] => 0
  | e :: rest => e.size + octetsOf rest

theorem octetsOf_append (es more : List CacheEntry) :
    octetsOf (es ++ more) = octetsOf es + octetsOf more := by
  induction es with
  | nil => exact (Nat.zero_add _).symm
  | cons e rest ih => rw [List.cons_append, octetsOf, octetsOf, ih, Nat.add_assoc]

/-- A cache as its operations leave it: a key has one entry at most, and the count is right. -/
structure Neat (c : TtlCache) : Prop where
  distinct : c.Distinct
  counted : c.bytes = octetsOf c.entries

theorem neat_empty (ttl maxBytes maxEntryBytes : Nat) :
    (empty ttl maxBytes maxEntryBytes).Neat := ⟨distinct_empty _ _ _, rfl⟩

/-! ## 1. Dropping entries -/

/-- The cache with the entries that pass a test. -/
def keep (c : TtlCache) (test : CacheEntry → Bool) : TtlCache :=
  { c with entries := c.entries.filter test, bytes := octetsOf (c.entries.filter test) }

theorem Neat.keep {c : TtlCache} (h : c.Neat) (test : CacheEntry → Bool) : (c.keep test).Neat :=
  ⟨h.distinct.of_sublist List.filter_sublist, rfl⟩

theorem Neat.keep_eq_self {c : TtlCache} (h : c.Neat) {test : CacheEntry → Bool}
    (hall : ∀ e ∈ c.entries, test e = true) : c.keep test = c := by
  have hentries : c.entries.filter test = c.entries := List.filter_eq_self.2 hall
  rw [TtlCache.keep, hentries, ← h.counted]

theorem keep_keep (c : TtlCache) (p q : CacheEntry → Bool) :
    (c.keep p).keep q = c.keep fun e => p e && q e := by
  simp only [keep, List.filter_filter, Bool.and_comm]

theorem keep_congr {c : TtlCache} {p q : CacheEntry → Bool} (h : ∀ e ∈ c.entries, p e = q e) :
    c.keep p = c.keep q := by
  rw [keep, keep, List.filter_congr h]

/-- Where a key has one entry at most, dropping the first one drops them all. -/
theorem Neat.remove_eq {c : TtlCache} (h : c.Neat) (key : String) :
    c.remove key = c.keep (·.key != key) := by
  cases hfind : c.find? key with
  | none =>
    have hall : ∀ e ∈ c.entries, (e.key != key) = true := by
      intro e he
      simpa using List.find?_eq_none.1 hfind e he
    rw [h.keep_eq_self hall, remove, hfind]
  | some e =>
    obtain ⟨hkey, before, after, hsplit, hbefore⟩ := List.find?_eq_some_iff_append.1 hfind
    have hdistinct : (before ++ e :: after).Pairwise fun a b => a.key ≠ b.key :=
      hsplit ▸ h.distinct
    have hafter : ∀ x ∈ after, (x.key != key) = true := by
      intro x hx
      have htail := (List.pairwise_append.1 hdistinct).2.1
      have hne : e.key ≠ x.key := (List.pairwise_cons.1 htail).1 x hx
      have hkey' : e.key = key := by simpa using hkey
      rw [bne_iff_ne]
      exact fun heq => hne (hkey'.trans heq.symm)
    have hnot : ∀ x ∈ before, (x.key != key) = true := hbefore
    have hfilter : c.entries.filter (·.key != key) = before ++ after := by
      rw [hsplit, List.filter_append, List.filter_eq_self.2 hnot,
        List.filter_cons_of_neg (by simpa using hkey), List.filter_eq_self.2 hafter]
    have herase : c.entries.eraseP (·.key == key) = before ++ after := by
      rw [hsplit, List.eraseP_append_right _ (by simpa using hbefore),
        List.eraseP_cons_of_pos (by exact hkey)]
    have hcount : c.bytes - e.size = octetsOf (before ++ after) := by
      rw [h.counted, hsplit, octetsOf_append, octetsOf_append, octetsOf]
      omega
    simp only [remove, hfind, TtlCache.keep, hfilter, herase, hcount]

/-- A read drops the entry of its key when it is no longer live. -/
theorem Neat.get_eq {c : TtlCache} (h : c.Neat) (key : String) (now : Nat) :
    (c.get key now).1 = c.keep fun e => e.key != key || e.isLive now := by
  unfold get
  split
  · rename_i hfind
    refine (h.keep_eq_self fun e he => ?_).symm
    have hne : e.key ≠ key := by simpa using List.find?_eq_none.1 hfind e he
    simp [hne]
  · rename_i found hfind
    have honly : ∀ e ∈ c.entries, e.key = key → e = found := by
      intro e he hkey
      have hsame : c.entries.find? (·.key == key) = some e := hkey ▸ find?_of_mem h.distinct he
      exact Option.some.inj (hsame.symm.trans hfind)
    split
    · rename_i hlive
      refine (h.keep_eq_self fun e he => ?_).symm
      by_cases hkey : e.key = key
      · rw [honly e he hkey, hlive, Bool.or_true]
      · simp [hkey]
    · rename_i hdead
      rw [h.remove_eq]
      refine keep_congr fun e he => ?_
      by_cases hkey : e.key = key
      · rw [honly e he hkey, Bool.eq_false_iff.2 hdead, Bool.or_false]
      · simp [hkey]

theorem Neat.foldl_remove {c : TtlCache} (h : c.Neat) (dead : List CacheEntry) :
    dead.foldl (fun c e => c.remove e.key) c =
      c.keep fun e => !(dead.map (·.key)).contains e.key := by
  induction dead generalizing c with
  | nil => exact (h.keep_eq_self fun _ _ => rfl).symm
  | cons d rest ih =>
    rw [List.foldl_cons, h.remove_eq, ih (h.keep _), keep_keep]
    refine keep_congr fun e _ => ?_
    rw [List.map_cons, List.contains_cons, Bool.not_or]
    rfl

/-- A purge keeps what is live. -/
theorem Neat.purge_eq {c : TtlCache} (h : c.Neat) (now : Nat) :
    (c.purge now).1 = c.keep (·.isLive now) := by
  unfold purge
  dsimp only
  rw [h.foldl_remove]
  refine keep_congr fun e he => ?_
  cases hlive : e.isLive now with
  | true =>
    rw [Bool.not_eq_true', Bool.eq_false_iff, Ne, List.contains_iff_mem, List.mem_map]
    rintro ⟨d, hd, hkey⟩
    obtain ⟨hmem, hdead⟩ := List.mem_filter.1 hd
    have hsame : c.entries.find? (·.key == e.key) = some d := hkey ▸ find?_of_mem h.distinct hmem
    obtain rfl : d = e := Option.some.inj (hsame.symm.trans (find?_of_mem h.distinct he))
    rw [hlive] at hdead
    cases hdead
  | false =>
    rw [Bool.not_eq_false', List.contains_iff_mem]
    exact List.mem_map_of_mem (List.mem_filter.2 ⟨he, by rw [hlive]; rfl⟩)

/-! ## 2. Writing -/

/-- The count of what is kept is right, and it fits. -/
theorem shed_fits (max : Nat) {bytes : Nat} {es : List CacheEntry} (h : bytes = octetsOf es) :
    (shed max bytes es).2 = octetsOf (shed max bytes es).1 ∧ (shed max bytes es).2 ≤ max := by
  induction es generalizing bytes with
  | nil =>
    subst h
    exact ⟨rfl, Nat.zero_le _⟩
  | cons e rest ih =>
    unfold shed
    split
    · refine ih ?_
      rw [h, octetsOf]
      omega
    · exact ⟨h, by omega⟩

/-- Every run of last entries that fits is kept. -/
theorem shed_keeps {max bytes : Nat} {es last : List CacheEntry} (h : bytes = octetsOf es)
    (hlast : last <:+ es) (hfits : octetsOf last ≤ max) : last <:+ (shed max bytes es).1 := by
  induction es generalizing bytes with
  | nil => exact hlast
  | cons e rest ih =>
    unfold shed
    split
    · rename_i hover
      rcases List.suffix_cons_iff.1 hlast with rfl | hlast
      · omega
      · refine ih ?_ hlast
        rw [h, octetsOf]
        omega
    · exact hlast

/-- A cache after a write: the entries of other keys and then the new one, of which the longest run
    of last ones is kept that fits. -/
structure Writes (c : TtlCache) (e : CacheEntry) (after : TtlCache) : Prop where
  ttl : after.ttl = c.ttl
  maxBytes : after.maxBytes = c.maxBytes
  maxEntryBytes : after.maxEntryBytes = c.maxEntryBytes
  neat : after.Neat
  last : after.entries <:+ c.entries.filter (·.key != e.key) ++ [e]
  fits : octetsOf after.entries ≤ c.maxBytes
  longest : ∀ last, last <:+ c.entries.filter (·.key != e.key) ++ [e] →
    octetsOf last ≤ c.maxBytes → last <:+ after.entries

theorem Neat.writes {c after : TtlCache} (h : c.Neat) {key : String} {value : Bytes} {now : Nat}
    (hset : c.set key value now = .ok after) : c.Writes ⟨key, value, c.expiryAt now⟩ after := by
  have hdistinct := h.distinct.of_set hset
  simp only [set] at hset
  split at hset
  · cases hset
  · have hcount : (c.keep (·.key != key)).bytes + entrySize key value =
        octetsOf (c.entries.filter (·.key != key) ++ [⟨key, value, c.expiryAt now⟩]) := by
      rw [octetsOf_append]
      rfl
    rw [h.remove_eq] at hset
    obtain ⟨htotal, hfits⟩ := shed_fits c.maxBytes hcount
    cases hset
    exact
      { ttl := rfl
        maxBytes := rfl
        maxEntryBytes := rfl
        neat := ⟨hdistinct, htotal⟩
        last := shed_suffix _ _ _
        fits := Nat.le_trans (Nat.le_of_eq htotal.symm) hfits
        longest := fun last hlast => shed_keeps hcount hlast }

end SignedRecords.TtlCache
