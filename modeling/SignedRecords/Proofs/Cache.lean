import SignedRecords.Cache.Response
import SignedRecords.Proofs.Wire

/-!
# What a cache holds

The entries of a cache have distinct keys. Every operation but a write only drops entries; a write
drops the entry of its key and perhaps others, and adds one. So what is found under a key is what
the last write of the key left there, or nothing.

Main statements: `find?_of_sublist`, for all that only drops, and `find?_of_set`.
-/

namespace SignedRecords

namespace TtlCache

/-- No two entries have one key: a cache is a map. -/
def Distinct (c : TtlCache) : Prop := c.entries.Pairwise fun a b => a.key ≠ b.key

theorem distinct_of_nil {c : TtlCache} (h : c.entries = []) : c.Distinct := by
  rw [Distinct, h]
  exact .nil

theorem distinct_empty (ttl maxBytes maxEntryBytes : Nat) :
    (empty ttl maxBytes maxEntryBytes).Distinct := distinct_of_nil rfl

/-! ## 1. Dropping entries -/

theorem Distinct.of_sublist {c c' : TtlCache} (hd : c.Distinct)
    (h : c'.entries.Sublist c.entries) : c'.Distinct := hd.sublist h

/-- Each entry is found under its key. -/
theorem find?_of_mem {es : List CacheEntry} (hd : es.Pairwise fun a b => a.key ≠ b.key)
    {e : CacheEntry} (he : e ∈ es) : es.find? (·.key == e.key) = some e := by
  induction es with
  | nil => exact absurd he List.not_mem_nil
  | cons first rest ih =>
    obtain ⟨hfirst, hrest⟩ := List.pairwise_cons.1 hd
    rcases List.mem_cons.1 he with rfl | he
    · simp
    · have hne : first.key ≠ e.key := hfirst e he
      rw [List.find?_cons_of_neg (by simpa using hne)]
      exact ih hrest he

/-- Where entries are only dropped, a key keeps its entry or loses it. -/
theorem find?_of_sublist {c c' : TtlCache} (hd : c.Distinct) (h : c'.entries.Sublist c.entries)
    (key : String) : c'.find? key = none ∨ c'.find? key = c.find? key := by
  cases hf : c'.find? key with
  | none => exact .inl rfl
  | some e =>
    right
    have hmem : e ∈ c.entries := h.subset (List.mem_of_find?_eq_some hf)
    have hkey : e.key = key := by simpa using List.find?_some hf
    rw [find?, ← hkey, find?_of_mem hd hmem]

theorem remove_sublist (c : TtlCache) (key : String) :
    (c.remove key).entries.Sublist c.entries := by
  unfold remove
  split
  · exact List.Sublist.refl _
  · exact List.eraseP_sublist

theorem remove_expiryAt (c : TtlCache) (key : String) (now : Nat) :
    (c.remove key).expiryAt now = c.expiryAt now := by
  unfold remove
  split
  · rfl
  · rfl

/-- A removed key has no entry. -/
theorem find?_remove {c : TtlCache} (hd : c.Distinct) (key : String) :
    (c.remove key).find? key = none := by
  unfold remove
  split
  · rename_i hnone
    exact hnone
  · rw [find?, List.find?_eq_none]
    intro e he hkey
    obtain ⟨first, hfirst⟩ : ∃ first, c.find? key = some first := ⟨_, by assumption⟩
    have hmem : e ∈ c.entries := List.mem_of_mem_eraseP he
    have hsame : e.key = key := by simpa using hkey
    have heq : c.entries.find? (·.key == key) = some e := hsame ▸ find?_of_mem hd hmem
    obtain ⟨-, before, after, hsplit, hbefore⟩ := List.find?_eq_some_iff_append.1 heq
    simp only [hsplit] at he
    rw [List.eraseP_append_right _ (by simpa using hbefore),
      List.eraseP_cons_of_pos (by simpa using hsame)] at he
    have hd' : (before ++ e :: after).Pairwise fun a b => a.key ≠ b.key := hsplit ▸ hd
    obtain ⟨-, hafter, hcross⟩ := List.pairwise_append.1 hd'
    rcases List.mem_append.1 he with he | he
    · exact hcross e he e List.mem_cons_self rfl
    · exact (List.pairwise_cons.1 hafter).1 e he rfl

theorem get_sublist (c : TtlCache) (key : String) (now : Nat) :
    (c.get key now).1.entries.Sublist c.entries := by
  unfold get
  split
  · exact List.Sublist.refl _
  · split
    · exact List.Sublist.refl _
    · exact remove_sublist c key

/-- A value that is read is the one of a live entry. -/
theorem entry_of_get {c : TtlCache} {key : String} {now : Nat} {value : Bytes}
    (h : (c.get key now).2 = some value) :
    ∃ e, c.find? key = some e ∧ e.value = value ∧ e.isLive now = true := by
  unfold get at h
  split at h
  · cases h
  · rename_i e he
    split at h
    · rename_i hlive
      exact ⟨e, he, Option.some.inj h, hlive⟩
    · cases h

/-- A key that reads as nothing has no entry afterwards. -/
theorem find?_of_get_none {c : TtlCache} (hd : c.Distinct) {key : String} {now : Nat}
    (h : (c.get key now).2 = none) : (c.get key now).1.find? key = none := by
  unfold get at h ⊢
  split at h
  · rename_i hnone
    exact hnone
  · rename_i e he
    split at h
    · cases h
    · rename_i hdead
      simp only [if_neg hdead]
      exact find?_remove hd key

theorem purge_sublist (c : TtlCache) (now : Nat) :
    (c.purge now).1.entries.Sublist c.entries := by
  have hfold : ∀ (dead : List CacheEntry) (c : TtlCache),
      (dead.foldl (fun c e => c.remove e.key) c).entries.Sublist c.entries := by
    intro dead
    induction dead with
    | nil => exact fun c => List.Sublist.refl _
    | cons e rest ih => exact fun c => (ih (c.remove e.key)).trans (remove_sublist c e.key)
  exact hfold _ c

/-! ## 2. Writing -/

theorem shed_suffix (max bytes : Nat) (es : List CacheEntry) :
    (shed max bytes es).1 <:+ es := by
  induction es generalizing bytes with
  | nil => exact List.suffix_refl _
  | cons e rest ih =>
    unfold shed
    split
    · exact (ih _).trans (List.suffix_cons e rest)
    · exact List.suffix_refl _

/-- Whether an entry is small enough to be written. -/
def Fits (c : TtlCache) (key : String) (value : Bytes) : Prop :=
  entrySize key value ≤ c.maxEntryBytes

instance (c : TtlCache) (key : String) (value : Bytes) : Decidable (c.Fits key value) :=
  inferInstanceAs (Decidable (_ ≤ _))

/-- A write is refused exactly when the entry is too large. -/
theorem set_isOk (c : TtlCache) (key : String) (value : Bytes) (now : Nat) :
    (∃ c', c.set key value now = .ok c') ↔ c.Fits key value := by
  simp only [set, Fits]
  constructor
  · rintro ⟨c', h⟩
    split at h
    · cases h
    · omega
  · intro h
    rw [if_neg (by omega)]
    exact ⟨_, rfl⟩

/-- The entries after a write: those of other keys and the new one, as far as they are kept. -/
theorem sublist_of_set {c c' : TtlCache} {key : String} {value : Bytes} {now : Nat}
    (h : c.set key value now = .ok c') :
    c'.entries.Sublist ((c.remove key).entries ++ [⟨key, value, c.expiryAt now⟩]) := by
  simp only [set] at h
  split at h
  · cases h
  · cases h
    rw [← remove_expiryAt c key now]
    exact (shed_suffix _ _ _).sublist

/-- All that is kept after a write is the new entry and entries of other keys. -/
theorem distinct_written {c : TtlCache} (hd : c.Distinct) (e : CacheEntry) :
    ((c.remove e.key).entries ++ [e]).Pairwise fun a b => a.key ≠ b.key := by
  refine List.pairwise_append.2 ⟨hd.of_sublist (remove_sublist c e.key),
    List.pairwise_singleton _ _, fun a ha b hb => ?_⟩
  rw [List.mem_singleton.1 hb]
  have hnone := List.find?_eq_none.1 (find?_remove hd e.key) a ha
  simpa using hnone

theorem Distinct.of_set {c c' : TtlCache} {key : String} {value : Bytes} {now : Nat}
    (hd : c.Distinct) (h : c.set key value now = .ok c') : c'.Distinct :=
  (distinct_written hd ⟨key, value, c.expiryAt now⟩).sublist (sublist_of_set h)

/-- After a write its key has the new entry or none, and other keys keep or lose theirs. -/
theorem find?_of_set {c c' : TtlCache} {key : String} {value : Bytes} {now : Nat}
    (hd : c.Distinct) (h : c.set key value now = .ok c') (k : String) :
    c'.find? k = none ∨
      c'.find? k = if k = key then some ⟨key, value, c.expiryAt now⟩ else c.find? k := by
  let written : TtlCache :=
    { c with entries := (c.remove key).entries ++ [⟨key, value, c.expiryAt now⟩] }
  have hwritten : written.Distinct := distinct_written hd ⟨key, value, c.expiryAt now⟩
  have happend : written.find? k =
      ((c.remove key).find? k).or
        (List.find? (·.key == k) [⟨key, value, c.expiryAt now⟩]) := List.find?_append
  rcases find?_of_sublist hwritten (sublist_of_set h) k with hk | hk
  · exact .inl hk
  · rw [hk, happend]
    by_cases hkey : k = key
    · subst hkey
      right
      rw [find?_remove hd k, if_pos rfl]
      simp
    · have hlast : List.find? (·.key == k)
          [(⟨key, value, c.expiryAt now⟩ : CacheEntry)] = none := by
        simpa using fun e => hkey e.symm
      rw [hlast, Option.or_none, if_neg hkey]
      exact find?_of_sublist hd (remove_sublist c key) k

/-! ## 3. Responses -/

/-- The response that the entry of an id carries, live or not. -/
def held? (c : TtlCache) (id : String) : Option Response :=
  (c.find? id).bind fun e => (Response.ofBytes e.value).toOption

theorem held?_of_nil {c : TtlCache} (h : c.entries = []) (id : String) : c.held? id = none := by
  rw [held?, find?, h]
  rfl

/-- What is held after entries were dropped was held before. -/
theorem held?_of_sublist {c c' : TtlCache} (hd : c.Distinct)
    (hs : c'.entries.Sublist c.entries) {id : String} {r : Response}
    (h : c'.held? id = some r) : c.held? id = some r := by
  rcases find?_of_sublist hd hs id with hf | hf
  · rw [held?, hf] at h
    cases h
  · rw [held?, ← hf]
    exact h

/-- What is held after a response was cached is that response, or was held for another id. -/
theorem held?_of_setResponse {c c' : TtlCache} (hd : c.Distinct) {key id : String}
    {x r : Response} {now : Nat} (hset : c.setResponse key x now = .ok c')
    (h : c'.held? id = some r) :
    id = key ∧ x = r ∨ id ≠ key ∧ c.held? id = some r := by
  rcases find?_of_set hd hset id with hf | hf
  · rw [held?, hf] at h
    cases h
  · rw [held?, hf] at h
    by_cases hid : id = key
    · rw [if_pos hid, Option.bind_some] at h
      cases hx : Response.ofBytes x.toBytes with
      | error e =>
        rw [hx] at h
        cases h
      | ok y =>
        rw [hx] at h
        cases h
        exact .inl ⟨hid, (Response.eq_of_ofBytes_toBytes hx).symm⟩
    · rw [if_neg hid] at h
      exact .inr ⟨hid, h⟩

theorem response_sublist (c : TtlCache) (id : String) (now : Nat) :
    (c.response id now).1.entries.Sublist c.entries := by
  have hget := get_sublist c id now
  unfold response
  split
  · rename_i c' hc
    rw [hc] at hget
    exact hget
  · rename_i c' bs hc
    rw [hc] at hget
    split
    · exact hget
    · exact (remove_sublist c' id).trans hget

/-- A response that is read is held. -/
theorem held?_of_response {c : TtlCache} {id : String} {now : Nat} {r : Response}
    (h : (c.response id now).2 = .ok (some r)) : c.held? id = some r := by
  unfold response at h
  split at h
  · cases h
  · rename_i c' bs hc
    obtain ⟨e, he, hv, -⟩ := entry_of_get (congrArg Prod.snd hc)
    split at h
    · rename_i x hx
      cases h
      rw [held?, he, Option.bind_some, hv, hx]
      rfl
    · cases h

/-- An id whose response is not read has no entry afterwards. -/
theorem find?_of_no_response {c : TtlCache} (hd : c.Distinct) {id : String} {now : Nat}
    (h : ∀ r, (c.response id now).2 ≠ .ok (some r)) : (c.response id now).1.find? id = none := by
  have hget := get_sublist c id now
  unfold response at h ⊢
  split
  · rename_i c' hc
    have hnone := find?_of_get_none hd (congrArg Prod.snd hc)
    rw [hc] at hnone
    exact hnone
  · rename_i c' bs hc
    rw [hc] at hget
    split
    · rename_i r hr
      simp only [hc, hr] at h
      exact absurd rfl (h r)
    · exact find?_remove (hd.of_sublist hget) id

end TtlCache

end SignedRecords
