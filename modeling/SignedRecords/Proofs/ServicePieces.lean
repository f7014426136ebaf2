import SignedRecords.Proofs.Cache
import SignedRecords.Proofs.ZBase32
import SignedRecords.Service.Basic

/-!
# What the pieces of a call do

Each piece of a call, as far as the store and the cached responses go: what it keeps, what it
caches, and how it ends. Everything about whole calls is derived from these.

Main statements: `Service.publish_next`, `Service.get_next`, `Service.written_cases`,
`Service.lookedUp_cases` and `Service.readBack_cases`.
-/

namespace SignedRecords

/-! ## 1. Turns of the store, and ids -/

theorem StoreTurn.run_eq_ok {α : Type} {turn : StoreTurn} {call : Except StoreError α} {x : α}
    (h : turn.run call = .ok x) : turn = .proceeds ∧ call = .ok x := by
  cases turn with
  | proceeds => exact ⟨rfl, h⟩
  | fails reason => cases h
  | timesOut => cases h

/-- The form of an id that is read is the canonical one. -/
theorem readId_eq_ok {text id : String} {key : Octets 32} (h : readId text = .ok (key, id)) :
    id = recordId key := by
  unfold readId at h
  split at h
  · cases h
    rfl
  · cases h

theorem readId_recordId (key : Octets 32) : readId (recordId key) = .ok (key, recordId key) := by
  simp only [readId, readRecordId_recordId]

namespace Service

/-! ## 2. Caching -/

@[simp] theorem cache_store (s : Service) (id : String) (r : Response) (now : Nat) :
    (s.cache id r now).store = s.store := by
  unfold cache
  split
  · rfl
  · rfl

@[simp] theorem markMissing_store (s : Service) (id : String) (now : Nat) :
    (s.markMissing id now).store = s.store := by
  unfold markMissing
  split
  · rfl
  · rfl

@[simp] theorem markMissing_responses (s : Service) (id : String) (now : Nat) :
    (s.markMissing id now).responses = s.responses := by
  unfold markMissing
  split
  · rfl
  · rfl

/-- What is cached is there, in place of what was; what is too large changes nothing. -/
theorem cache_responses (s : Service) (id : String) (r : Response) (now : Nat) :
    (s.responses.setResponse id r now = .ok (s.cache id r now).responses ∧
        s.responses.Fits id r.toBytes) ∨
      ((s.cache id r now).responses = s.responses ∧ ¬ s.responses.Fits id r.toBytes) := by
  have hfits := TtlCache.set_isOk s.responses id r.toBytes now
  unfold cache
  split
  · rename_i responses hset
    exact .inl ⟨hset, hfits.1 ⟨responses, hset⟩⟩
  · rename_i e hset
    refine .inr ⟨rfl, fun h => ?_⟩
    obtain ⟨c', hc⟩ := hfits.2 h
    rw [TtlCache.setResponse, hc] at hset
    cases hset

theorem cached_sublist (s : Service) (id : String) (now : Nat) :
    (s.cached id now).1.responses.entries.Sublist s.responses.entries :=
  TtlCache.response_sublist s.responses id now

theorem held?_of_cached {s : Service} {id : String} {now : Nat} {r : Response}
    (h : (s.cached id now).2 = some r) : s.responses.held? id = some r := by
  simp only [cached] at h
  split at h
  · rename_i response hr
    rw [h] at hr
    exact TtlCache.held?_of_response hr
  · cases h

theorem find?_of_not_cached {s : Service} (hd : s.responses.Distinct) {id : String} {now : Nat}
    (h : (s.cached id now).2 = none) : (s.cached id now).1.responses.find? id = none := by
  refine TtlCache.find?_of_no_response hd fun r hr => ?_
  simp only [cached, hr] at h
  cases h

/-! ## 3. Beginnings of calls -/

/-- The store is the same, and cached responses were at most dropped. -/
structure Kept (s s' : Service) : Prop where
  store : s'.store = s.store
  responses : s'.responses.entries.Sublist s.responses.entries

theorem Kept.rfl (s : Service) : s.Kept s := ⟨Eq.refl _, List.Sublist.refl _⟩

theorem publish_kept (s : Service) (now : Nat) (id : String) (record : Record) :
    s.Kept (s.publish now id record).1 := by
  unfold publish
  split
  · exact .rfl s
  · rename_i key id' hid
    split
    · exact .rfl s
    · split
      · exact .rfl s
      · dsimp only
        split
        · exact ⟨rfl, cached_sublist s id' now⟩
        · exact ⟨rfl, cached_sublist s id' now⟩

/-- Only a valid record under its own id is published; it is skipped when its response is cached,
    and written otherwise. -/
theorem publish_next {s : Service} {now : Nat} {id : String} {record : Record} {next : CallStep}
    (h : (s.publish now id record).2 = next) :
    (∃ e, next = .replies (.failed e)) ∨
      (record.validate = .ok () ∧ readId id = .ok (record.key, record.id) ∧
        (next = .replies .published ∧ s.responses.held? record.id = some record.response ∨
          next = .waits (.write record.id record))) := by
  unfold publish at h
  split at h
  · exact .inl ⟨_, h.symm⟩
  · rename_i key id' hid
    split at h
    · exact .inl ⟨_, h.symm⟩
    · rename_i hkey
      have hkey' : key = record.key := Decidable.not_not.1 hkey
      subst hkey'
      have hown : id' = record.id := readId_eq_ok hid
      subst hown
      split at h
      · exact .inl ⟨_, h.symm⟩
      · rename_i hvalid
        dsimp only at h
        right
        refine ⟨hvalid, hid, ?_⟩
        split at h
        · rename_i hcached
          exact .inl ⟨h.symm, held?_of_cached hcached⟩
        · exact .inr h.symm

theorem get_kept (s : Service) (now : Nat) (id : String) :
    s.Kept (s.get now id).1 := by
  unfold get
  split
  · exact .rfl s
  · rename_i key id' hid
    dsimp only
    split
    · exact ⟨rfl, List.Sublist.refl _⟩
    · split
      · exact ⟨rfl, cached_sublist _ id' now⟩
      · exact ⟨rfl, cached_sublist _ id' now⟩

/-- A get answers a cached response, or finds none and looks in the DHT. -/
theorem get_next {s : Service} {now : Nat} {id : String} {next : CallStep}
    (h : (s.get now id).2 = next) :
    (∃ e, next = .replies (.failed e)) ∨
      ∃ key, readId id = .ok (key, recordId key) ∧
        ((∃ r, next = .replies (.found r) ∧ s.responses.held? (recordId key) = some r) ∨
          (next = .waits (.lookup (recordId key)) ∧ (s.responses.Distinct →
            (s.get now id).1.responses.find? (recordId key) = none))) := by
  unfold get at h ⊢
  split at h
  · exact .inl ⟨_, h.symm⟩
  · rename_i key id' hid
    have hown : id' = recordId key := readId_eq_ok hid
    subst hown
    dsimp only at h ⊢
    split at h
    · exact .inl ⟨_, h.symm⟩
    · rename_i hmiss
      rw [if_neg hmiss]
      right
      refine ⟨key, hid, ?_⟩
      split at h
      · rename_i r hr
        exact .inl ⟨r, h.symm, held?_of_cached hr⟩
      · rename_i hnone
        exact .inr ⟨h.symm, fun hd => find?_of_not_cached hd hnone⟩

/-! ## 4. After a wait -/

/-- A write that fails changes nothing; one that succeeds is cached. -/
theorem written_cases (s : Service) (now : Nat) (id : String) (record : Record)
    (turn : StoreTurn) :
    (∃ e, turn.run (s.store.write record) = .error e ∧
        s.written now id record turn = (s, .replies (.failed (.store e)), none)) ∨
      ∃ store, turn.run (s.store.write record) = .ok store ∧
        (s.written now id record turn).1.store = store ∧
        (s.written now id record turn).1.responses = (s.cache id record.response now).responses ∧
        (s.written now id record turn).2 = (.replies .published, some record) := by
  unfold written
  split
  · rename_i e he
    exact .inl ⟨e, he, rfl⟩
  · rename_i store hstore
    refine .inr ⟨store, hstore, cache_store _ _ _ _, ?_, rfl⟩
    simp only [cache]
    split
    · rfl
    · rfl

/-- What a lookup answers counts when it has an owner; then it is cached and replied. -/
theorem lookedUp_cases (s : Service) (now : Nat) (id : String) (turn : LookupTurn) :
    (∃ full, turn = .answers (.ok full) ∧ full.isMutable = true ∧
        s.lookedUp now id turn = (s.cache id full.response now, .replies (.found full.response))) ∨
      ((∀ full, turn = .answers (.ok full) → full.isMutable = false) ∧
        s.lookedUp now id turn = (s, .waits (.read id))) := by
  cases turn with
  | timesOut => exact .inr ⟨fun full h => (nomatch h), rfl⟩
  | answers result =>
    cases result with
    | error e => exact .inr ⟨fun full h => (nomatch h), rfl⟩
    | ok full =>
      cases hm : full.isMutable with
      | true => exact .inl ⟨full, rfl, hm, by simp [lookedUp, hm]⟩
      | false =>
        refine .inr ⟨fun f h => ?_, by simp [lookedUp, hm]⟩
        cases h
        exact hm

/-- What the store answers is cached and replied; the cache is kept when it answers nothing. -/
theorem readBack_cases (s : Service) (now : Nat) (id : String) (turn : StoreTurn) :
    (s.readBack now id turn).1.store = s.store ∧
      ((∃ record, turn.run (s.store.read id) = .ok (some record) ∧
          (s.readBack now id turn).1.responses = (s.cache id record.response now).responses ∧
          (s.readBack now id turn).2.1 = .replies (.found record.response)) ∨
        ((∀ record, turn.run (s.store.read id) ≠ .ok (some record)) ∧
          (s.readBack now id turn).1.responses = s.responses ∧
          ((∃ e, (s.readBack now id turn).2.1 = .replies (.failed e)) ∨
            (s.readBack now id turn).2.1 = .replies .notFound))) := by
  unfold readBack
  split
  · rename_i e he
    refine ⟨rfl, .inr ⟨fun record h => ?_, rfl, .inl ⟨_, rfl⟩⟩⟩
    rw [he] at h
    cases h
  · rename_i hnone
    refine ⟨markMissing_store s id now, .inr ⟨fun record h => ?_, markMissing_responses s id now,
      .inr rfl⟩⟩
    rw [hnone] at h
    cases h
  · rename_i record hrecord
    exact ⟨cache_store _ _ _ _, .inl ⟨record, hrecord, rfl, rfl⟩⟩

end Service

end SignedRecords
