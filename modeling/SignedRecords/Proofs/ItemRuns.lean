import SignedRecords.Dht.ItemStore
import SignedRecords.Proofs.NeutralKey

/-!
# Runs of an item store

Requests come to the store of a node one after another, and the clock does not go back. At a target
where all items have an owner, what is kept never goes back either: until the lifetime of an item is
over, the store answers it or an item with a higher sequence number, whatever else is asked for
meanwhile.

What can be seen of a store is what is alive. Expired items change no answer, so it does not matter
when they are swept out.

Main statement: `arbitration_in_runs`.
-/

namespace SignedRecords

/-- A verified item with an owner carries a sequence number. -/
theorem Item.seq_of_verify {item : Item} (hm : item.isMutable = true) (h : item.verify = true) :
    ∃ n, item.seq = some n := by
  obtain ⟨key, hkey⟩ := Option.isSome_iff_exists.1 hm
  unfold verify at h
  rw [hkey] at h
  split at h
  · cases h
  · split at h
    · rename_i n _ _ hseq
      exact ⟨n, hseq⟩
    · rename_i hnone _ _
      cases hnone
    · cases h

/-- What is asked of an item store. -/
inductive ItemRequest where
  | put (item : Item)
  | get (target : NodeId) (known : Option Sequence)
  /-- Sweeps out what is expired. -/
  | sweep
  | clear
  deriving DecidableEq

/-- What an item store answers. -/
inductive ItemAnswer where
  | put (result : Except KeepError Unit)
  | got (item : Option Item)
  | swept (count : Nat)
  | cleared

/-- Requests to an item store, the first one first, each with its moment. -/
abbrev ItemRun := List (Stamp × ItemRequest)

/-- The clock does not go back. -/
def ItemRun.Timely (run : ItemRun) : Prop :=
  run.Pairwise fun a b => a.1.sinceEpoch ≤ b.1.sinceEpoch

namespace ItemStore

/-! ## 1. What is kept for a target -/

/-- No target has two items. -/
def Distinct (s : ItemStore) : Prop := (s.entries.map (·.1)).Nodup

/-- The moment at which an item that is put now expires. -/
def endOfLife (s : ItemStore) (now : Stamp) : Int := now.sinceEpoch + (s.ttl * nanosPerMilli : Nat)

theorem put_eq_ok {s s' : ItemStore} {item : Item} {now : Stamp} :
    s.put item now = .ok s' ↔ item.verify = true ∧ s.conflict? item now = none ∧
      s' = { s with entries :=
        (item.target, ⟨item, s.endOfLife now⟩) :: s.entries.filter (·.1 != item.target) } := by
  unfold put
  cases hv : item.verify with
  | false => simp
  | true =>
    cases hc : s.conflict? item now with
    | none => simp [endOfLife, eq_comm]
    | some numbers => simp

theorem put_eq_error {s : ItemStore} {item : Item} {now : Stamp} {e : KeepError} :
    s.put item now = .error e ↔ (item.verify = false ∧ e = .invalidItem) ∨
      (item.verify = true ∧ ∃ current attempted, s.conflict? item now = some (current, attempted) ∧
        e = .staleSequence current attempted) := by
  unfold put
  cases hv : item.verify with
  | false => simp [eq_comm]
  | true =>
    cases hc : s.conflict? item now with
    | none => simp
    | some numbers =>
      constructor
      · intro h
        cases h
        exact .inr ⟨rfl, _, _, rfl, rfl⟩
      · rintro (⟨hno, -⟩ | ⟨-, _, _, heq, rfl⟩)
        · cases hno
        · cases heq
          rfl

theorem lookup_of_mem {s : ItemStore} (hd : s.Distinct) {target : NodeId} {k : KeptItem} :
    s.lookup target = some k ↔ (target, k) ∈ s.entries := by
  unfold Distinct at hd
  unfold lookup
  generalize s.entries = es at hd ⊢
  induction es with
  | nil => simp
  | cons e rest ih =>
    obtain ⟨place, kept⟩ := e
    rw [List.map_cons, List.nodup_cons] at hd
    rw [List.find?_cons]
    by_cases h : place = target
    · subst h
      have hnot : (place, k) ∉ rest := fun hmem => hd.1 (List.mem_map.2 ⟨_, hmem, rfl⟩)
      simp [hnot, eq_comm]
    · have hne : target ≠ place := fun e => h e.symm
      simp only [beq_eq_false_iff_ne.2 h]
      rw [ih hd.2, List.mem_cons]
      simp [hne]

/-- A put replaces what was kept for its target and nothing else. -/
theorem lookup_of_put {s s' : ItemStore} {item : Item} {now : Stamp} (h : s.put item now = .ok s')
    (target : NodeId) : s'.lookup target =
      if target = item.target then some ⟨item, s.endOfLife now⟩ else s.lookup target := by
  obtain ⟨-, -, rfl⟩ := put_eq_ok.1 h
  unfold lookup
  rw [List.find?_cons]
  by_cases ht : target = item.target
  · subst ht
    simp
  · have hne : item.target ≠ target := fun e => ht e.symm
    rw [if_neg ht, beq_eq_false_iff_ne.2 hne]
    show (List.find? _ (List.filter _ _)).map _ = _
    rw [List.find?_filter]
    congr 2
    funext e
    by_cases he : e.1 = target
    · simp [he, ht]
    · simp [he]

theorem distinct_of_put {s s' : ItemStore} (hd : s.Distinct) {item : Item} {now : Stamp}
    (h : s.put item now = .ok s') : s'.Distinct := by
  obtain ⟨-, -, rfl⟩ := put_eq_ok.1 h
  unfold Distinct
  rw [List.map_cons, List.nodup_cons]
  constructor
  · intro hmem
    obtain ⟨e, he, heq⟩ := List.mem_map.1 hmem
    have hne := (List.mem_filter.1 he).2
    simp [heq] at hne
  · exact hd.sublist (List.filter_sublist.map _)

theorem distinct_removeExpired {s : ItemStore} (hd : s.Distinct) (now : Stamp) :
    (s.removeExpired now).1.Distinct := hd.sublist (List.filter_sublist.map _)

/-- A sweep takes what is expired, and only that. -/
theorem lookup_removeExpired {s : ItemStore} (hd : s.Distinct) (now : Stamp) (target : NodeId) :
    (s.removeExpired now).1.lookup target =
      (s.lookup target).filter fun k => !k.isExpired now := by
  apply Option.ext
  intro k
  rw [lookup_of_mem (distinct_removeExpired hd now), Option.filter_eq_some_iff, lookup_of_mem hd]
  exact List.mem_filter

/-! ## 2. What is alive -/

/-- What is kept for a target and alive. -/
def live? (s : ItemStore) (target : NodeId) (now : Stamp) : Option KeptItem :=
  (s.lookup target).filter fun k => !k.isExpired now

theorem live?_eq_some {s : ItemStore} {target : NodeId} {now : Stamp} {k : KeptItem} :
    s.live? target now = some k ↔ s.lookup target = some k ∧ k.isExpired now = false := by
  simp [live?, Option.filter_eq_some_iff]

theorem isExpired_eq_false {k : KeptItem} {now : Stamp} :
    k.isExpired now = false ↔ now.sinceEpoch < k.expiry := by
  simp [KeptItem.isExpired]

/-- What is alive later was alive before. -/
theorem live?_later (s : ItemStore) (target : NodeId) {now later : Stamp}
    (h : now.sinceEpoch ≤ later.sinceEpoch) :
    s.live? target later = (s.live? target now).filter fun k => !k.isExpired later := by
  apply Option.ext
  intro k
  rw [Option.filter_eq_some_iff, live?_eq_some, live?_eq_some, Bool.not_eq_true',
    isExpired_eq_false, isExpired_eq_false]
  constructor
  · rintro ⟨hk, hl⟩
    exact ⟨⟨hk, by omega⟩, hl⟩
  · rintro ⟨⟨hk, -⟩, hl⟩
    exact ⟨hk, hl⟩

theorem get_eq (s : ItemStore) (target : NodeId) (known : Option Sequence) (now : Stamp) :
    s.get target known now =
      ((s.live? target now).map (·.item)).filter fun i => !alreadyKnown i known := by
  unfold get live?
  cases s.lookup target with
  | none => rfl
  | some k =>
    cases he : k.isExpired now with
    | true => simp [he, Option.filter_some]
    | false => cases hk : alreadyKnown k.item known <;> simp [he, hk, Option.filter_some]

theorem get_none_eq_some {s : ItemStore} {target : NodeId} {now : Stamp} {item : Item} :
    s.get target none now = some item ↔ ∃ k, s.live? target now = some k ∧ k.item = item := by
  have hnot : ∀ i, alreadyKnown i none = false := by
    intro i
    unfold alreadyKnown
    split
    · rename_i hnone
      cases hnone
    · rfl
  rw [get_eq, Option.filter_eq_some_iff, Option.map_eq_some_iff]
  simp [hnot]

theorem get_some_eq_some {s : ItemStore} {target : NodeId} {now : Stamp} {item : Item}
    {n : Sequence} : s.get target (some n) now = some item ↔
      s.get target none now = some item ∧ ∀ m, item.seq = some m → n < m := by
  rw [get_none_eq_some, get_eq, Option.filter_eq_some_iff, Option.map_eq_some_iff]
  apply and_congr_right
  intro _
  unfold alreadyKnown
  cases item.seq with
  | none => simp
  | some m => simp [Int64.not_le]

/-- Only a live item stands in the way of another one. -/
theorem conflict?_eq_some {s : ItemStore} {item : Item} {now : Stamp}
    {current attempted : Sequence} : s.conflict? item now = some (current, attempted) ↔
      ∃ k, s.live? item.target now = some k ∧ item.seq = some attempted ∧ k.item ≠ item ∧
        attempted ≤ rank k.item ∧ current = rank k.item := by
  unfold conflict? live?
  cases s.lookup item.target with
  | none => simp
  | some k =>
    cases item.seq with
    | none => simp
    | some m =>
      cases he : k.isExpired now with
      | true => simp [he]
      | false =>
        have hlive : (some k).filter (fun k => !k.isExpired now) = some k := by
          simp [Option.filter_some, he]
        simp only [hlive, Option.ite_none_right_eq_some, Option.some.injEq, Prod.mk.injEq]
        constructor
        · rintro ⟨⟨-, hne, hle⟩, rfl, rfl⟩
          exact ⟨k, rfl, rfl, hne, hle, rfl⟩
        · rintro ⟨k', rfl, rfl, hne, hle, rfl⟩
          exact ⟨⟨by rw [he]; rfl, hne, hle⟩, rfl, rfl⟩

/-- An item that is put over a live one is the same or has a higher sequence number. -/
theorem eq_or_above_of_put {s s' : ItemStore} {item : Item} {now : Stamp} {k : KeptItem}
    {n : Sequence} (h : s.put item now = .ok s') (hk : s.live? item.target now = some k)
    (hn : item.seq = some n) : item = k.item ∨ rank k.item < n := by
  obtain ⟨-, hnone, -⟩ := put_eq_ok.1 h
  by_cases heq : k.item = item
  · exact .inl heq.symm
  · right
    rw [← Int64.not_le]
    intro hle
    have hsome := conflict?_eq_some.2 ⟨k, hk, hn, heq, hle, rfl⟩
    rw [hnone] at hsome
    cases hsome

/-! ## 3. Requests -/

/-- One request: the store afterwards, and the answer. -/
def serve (s : ItemStore) (now : Stamp) : ItemRequest → ItemStore × ItemAnswer
  | .put item =>
    match s.put item now with
    | .ok s' => (s', .put (.ok ()))
    | .error e => (s, .put (.error e))
  | .get target known => (s, .got (s.get target known now))
  | .sweep => ((s.removeExpired now).1, .swept (s.removeExpired now).2)
  | .clear => (s.clear, .cleared)

theorem serve_put_ok {s s' : ItemStore} {now : Stamp} {item : Item}
    (h : s.put item now = .ok s') : s.serve now (.put item) = (s', .put (.ok ())) := by
  simp only [serve, h]

theorem serve_put_error {s : ItemStore} {now : Stamp} {item : Item} {e : KeepError}
    (h : s.put item now = .error e) : s.serve now (.put item) = (s, .put (.error e)) := by
  simp only [serve, h]

theorem serve_ttl (s : ItemStore) (now : Stamp) (request : ItemRequest) :
    (s.serve now request).1.ttl = s.ttl := by
  cases request with
  | put item =>
    cases h : s.put item now with
    | error e => rw [serve_put_error h]
    | ok s' =>
      rw [serve_put_ok h]
      obtain ⟨-, -, rfl⟩ := put_eq_ok.1 h
      rfl
  | get target known => rfl
  | sweep => rfl
  | clear => rfl

/-- What a request does to what is kept for a target. -/
theorem lookup_serve {s : ItemStore} (hd : s.Distinct) (now : Stamp) (request : ItemRequest)
    (target : NodeId) :
    (s.serve now request).1.lookup target = s.lookup target ∨
      (∃ item, request = .put item ∧ item.target = target ∧
        s.put item now = .ok (s.serve now request).1 ∧
        (s.serve now request).1.lookup target = some ⟨item, s.endOfLife now⟩) ∨
      (request = .sweep ∧ (s.serve now request).1.lookup target = s.live? target now) ∨
      (request = .clear ∧ (s.serve now request).1.lookup target = none) := by
  cases request with
  | get target' known => exact .inl rfl
  | sweep => exact .inr (.inr (.inl ⟨rfl, lookup_removeExpired hd now target⟩))
  | clear => exact .inr (.inr (.inr ⟨rfl, rfl⟩))
  | put item =>
    cases h : s.put item now with
    | error e =>
      rw [serve_put_error h]
      exact .inl rfl
    | ok s' =>
      rw [serve_put_ok h]
      have hlookup := lookup_of_put h target
      by_cases ht : target = item.target
      · rw [if_pos ht] at hlookup
        exact .inr (.inl ⟨item, rfl, ht.symm, h, hlookup⟩)
      · rw [if_neg ht] at hlookup
        exact .inl hlookup

theorem distinct_serve {s : ItemStore} (hd : s.Distinct) (now : Stamp) (request : ItemRequest) :
    (s.serve now request).1.Distinct := by
  cases request with
  | get target known => exact hd
  | sweep => exact distinct_removeExpired hd now
  | clear => exact List.nodup_nil
  | put item =>
    cases h : s.put item now with
    | error e =>
      rw [serve_put_error h]
      exact hd
    | ok s' =>
      rw [serve_put_ok h]
      exact distinct_of_put hd h

/-! ## 4. A target whose items have owners -/

/-- A request that puts no item without an owner at a target. -/
def OwnedAt (target : NodeId) : ItemRequest → Prop
  | .put item => item.target = target → item.isMutable = true
  | _ => True

/-- What is kept for a target is a verified item of it that has an owner. -/
structure Owned (target : NodeId) (s : ItemStore) : Prop where
  distinct : s.Distinct
  kept : ∀ k, s.lookup target = some k →
    k.item.target = target ∧ k.item.isMutable = true ∧ k.item.verify = true

theorem owned_empty (target : NodeId) (ttl : Nat) : Owned target (empty ttl) :=
  ⟨List.nodup_nil, fun _ hk => nomatch hk⟩

theorem Owned.serve {target : NodeId} {s : ItemStore} (hs : Owned target s) (now : Stamp)
    {request : ItemRequest} (hr : OwnedAt target request) :
    Owned target (s.serve now request).1 := by
  refine ⟨distinct_serve hs.distinct now request, ?_⟩
  intro k hk
  rcases lookup_serve hs.distinct now request target with
    h | ⟨item, rfl, ht, hput, h⟩ | ⟨-, h⟩ | ⟨-, h⟩
  · rw [h] at hk
    exact hs.kept k hk
  · rw [h] at hk
    cases hk
    exact ⟨ht, hr ht, (put_eq_ok.1 hput).1⟩
  · rw [h] at hk
    exact hs.kept k (live?_eq_some.1 hk).1
  · rw [h] at hk
    cases hk

/-- The store keeps, until `expiry` at least, an item with a sequence number not below `n`, and
    none but `x` with `n` itself. -/
def Holds (s : ItemStore) (x : Item) (n : Sequence) (expiry : Int) : Prop :=
  ∃ k m, s.lookup x.target = some k ∧ expiry ≤ k.expiry ∧ k.item.seq = some m ∧ n ≤ m ∧
    (m = n → k.item = x)

theorem holds_of_put {s s' : ItemStore} {x : Item} {now : Stamp} {n : Sequence}
    (h : s.put x now = .ok s') (hn : x.seq = some n) : s'.Holds x n (s.endOfLife now) := by
  refine ⟨⟨x, s.endOfLife now⟩, n, ?_, Int.le_refl _, hn, Int64.le_refl n, fun _ => rfl⟩
  rw [lookup_of_put h, if_pos rfl]

/-- No request but `clear` takes away what is held, as long as it is alive. -/
theorem Holds.serve {s : ItemStore} {x : Item} {n : Sequence} {expiry : Int} {now : Stamp}
    {request : ItemRequest} (h : s.Holds x n expiry) (hs : s.Distinct)
    (hr : OwnedAt x.target request) (hclear : request ≠ .clear)
    (halive : ∀ k, s.lookup x.target = some k → expiry ≤ k.expiry → k.isExpired now = false)
    (hexpiry : expiry ≤ s.endOfLife now) : (s.serve now request).1.Holds x n expiry := by
  obtain ⟨k, m, hk, hlong, hm, hle, hsame⟩ := h
  have hlive : s.live? x.target now = some k := live?_eq_some.2 ⟨hk, halive k hk hlong⟩
  rcases lookup_serve hs now request x.target with
    h | ⟨item, rfl, ht, hput, h⟩ | ⟨-, h⟩ | ⟨hc, -⟩
  · exact ⟨k, m, h.trans hk, hlong, hm, hle, hsame⟩
  · obtain ⟨q, hq⟩ := Item.seq_of_verify (hr ht) (put_eq_ok.1 hput).1
    rw [← ht] at hlive
    rcases eq_or_above_of_put hput hlive hq with rfl | habove
    · exact ⟨_, m, h, hexpiry, hm, hle, hsame⟩
    · have hrank : rank k.item = m := by
        unfold rank
        rw [hm]
        rfl
      rw [hrank] at habove
      have hnq : n < q := Int64.lt_of_le_of_lt hle habove
      refine ⟨_, q, h, hexpiry, hq, Int64.le_of_lt hnq, ?_⟩
      intro he
      rw [he] at hnq
      exact absurd hnq Int64.lt_irrefl
  · exact ⟨k, m, h.trans hlive, hlong, hm, hle, hsame⟩
  · exact absurd hc hclear

/-! ## 5. Runs -/

/-- The store after a run. -/
def after (s : ItemStore) : ItemRun → ItemStore
  | [] => s
  | (now, request) :: rest => (s.serve now request).1.after rest

/-- The requests of a run with their answers. -/
def answers (s : ItemStore) : ItemRun → List (ItemRequest × ItemAnswer)
  | [] => []
  | (now, request) :: rest =>
    (request, (s.serve now request).2) :: (s.serve now request).1.answers rest

theorem Owned.after {target : NodeId} {s : ItemStore} (hs : Owned target s) {run : ItemRun}
    (hr : ∀ e ∈ run, OwnedAt target e.2) : Owned target (s.after run) := by
  induction run generalizing s with
  | nil => exact hs
  | cons e rest ih =>
    obtain ⟨now, request⟩ := e
    rw [List.forall_mem_cons] at hr
    exact ih (hs.serve now hr.1) hr.2

theorem Holds.after {s : ItemStore} {x : Item} {n : Sequence} {expiry : Int}
    (h : s.Holds x n expiry) (hs : s.Distinct) {run : ItemRun}
    (hr : ∀ e ∈ run, OwnedAt x.target e.2 ∧ e.2 ≠ .clear)
    (htime : ∀ e ∈ run, e.1.sinceEpoch < expiry ∧ expiry ≤ s.endOfLife e.1) :
    (s.after run).Holds x n expiry := by
  induction run generalizing s with
  | nil => exact h
  | cons e rest ih =>
    obtain ⟨now, request⟩ := e
    rw [List.forall_mem_cons] at hr htime
    have halive : ∀ k, s.lookup x.target = some k → expiry ≤ k.expiry → k.isExpired now = false :=
      fun k _ hle => isExpired_eq_false.2 (Int.lt_of_lt_of_le htime.1.1 hle)
    have hnext := h.serve hs hr.1.1 hr.1.2 halive htime.1.2
    refine ih hnext (distinct_serve hs now request) hr.2 fun e he => ?_
    have hlater := htime.2 e he
    unfold endOfLife at hlater ⊢
    rw [serve_ttl]
    exact hlater

/-! ## 6. Sweeps -/

/-- Two stores in which the same is alive. -/
structure Agree (a b : ItemStore) (now : Stamp) : Prop where
  ttl : a.ttl = b.ttl
  left : a.Distinct
  right : b.Distinct
  live : ∀ target, a.live? target now = b.live? target now

theorem Agree.later {a b : ItemStore} {now later : Stamp} (h : Agree a b now)
    (hle : now.sinceEpoch ≤ later.sinceEpoch) : Agree a b later := by
  refine ⟨h.ttl, h.left, h.right, fun target => ?_⟩
  rw [live?_later a target hle, live?_later b target hle, h.live]

theorem Agree.conflict? {a b : ItemStore} {now : Stamp} (h : Agree a b now) (item : Item) :
    a.conflict? item now = b.conflict? item now := by
  apply Option.ext
  rintro ⟨current, attempted⟩
  rw [conflict?_eq_some, conflict?_eq_some, h.live]

theorem live?_of_put {s s' : ItemStore} {item : Item} {now : Stamp} (h : s.put item now = .ok s')
    (target : NodeId) (later : Stamp) : s'.live? target later =
      if target = item.target then
        (some ⟨item, s.endOfLife now⟩ : Option KeptItem).filter fun k => !k.isExpired later
      else s.live? target later := by
  unfold live?
  rw [lookup_of_put h]
  split <;> rfl

/-- A put does the same to two stores in which the same is alive. -/
theorem Agree.put {a b a' : ItemStore} {now : Stamp} (h : Agree a b now) {item : Item}
    (ha : a.put item now = .ok a') : ∃ b', b.put item now = .ok b' ∧ Agree a' b' now := by
  obtain ⟨hv, hc, -⟩ := put_eq_ok.1 ha
  have hb := put_eq_ok.2 ⟨hv, h.conflict? item ▸ hc, rfl⟩
  refine ⟨_, hb, ⟨?_, distinct_of_put h.left ha, distinct_of_put h.right hb, ?_⟩⟩
  · have httl := congrArg Prod.fst (serve_put_ok ha)
    rw [← show (a.serve now (.put item)).1 = a' from httl, serve_ttl]
    exact h.ttl
  · intro target
    have hend : a.endOfLife now = b.endOfLife now := by
      unfold endOfLife
      rw [h.ttl]
    rw [live?_of_put ha, live?_of_put hb, hend, h.live]

theorem Agree.symm {a b : ItemStore} {now : Stamp} (h : Agree a b now) : Agree b a now :=
  ⟨h.ttl.symm, h.right, h.left, fun target => (h.live target).symm⟩

theorem live?_removeExpired {s : ItemStore} (hd : s.Distinct) (now : Stamp) (target : NodeId) :
    (s.removeExpired now).1.live? target now = s.live? target now := by
  unfold live?
  rw [lookup_removeExpired hd]
  apply Option.ext
  intro k
  simp only [Option.filter_eq_some_iff]
  exact ⟨fun hk => ⟨hk.1.1, hk.2⟩, fun hk => ⟨hk, hk.2⟩⟩

/-- A sweep changes nothing that is alive. -/
theorem Agree.sweep {a b : ItemStore} {now : Stamp} (h : Agree a b now) :
    Agree (a.removeExpired now).1 b now := by
  refine ⟨h.ttl, distinct_removeExpired h.left now, h.right, fun target => ?_⟩
  rw [live?_removeExpired h.left, h.live]

/-- All other requests are answered alike and keep the same alive. -/
theorem Agree.serve {a b : ItemStore} {now : Stamp} (h : Agree a b now) {request : ItemRequest}
    (hr : request ≠ .sweep) : (a.serve now request).2 = (b.serve now request).2 ∧
      Agree (a.serve now request).1 (b.serve now request).1 now := by
  cases request with
  | sweep => exact absurd rfl hr
  | clear => exact ⟨rfl, ⟨h.ttl, List.nodup_nil, List.nodup_nil, fun _ => rfl⟩⟩
  | get target known =>
    refine ⟨?_, h⟩
    show ItemAnswer.got _ = ItemAnswer.got _
    rw [get_eq, get_eq, h.live]
  | put item =>
    cases ha : a.put item now with
    | ok a' =>
      obtain ⟨b', hb, hnext⟩ := h.put ha
      rw [serve_put_ok ha, serve_put_ok hb]
      exact ⟨rfl, hnext⟩
    | error e =>
      have hb : b.put item now = .error e := by
        rw [put_eq_error, ← h.conflict? item, ← put_eq_error]
        exact ha
      rw [serve_put_error ha, serve_put_error hb]
      exact ⟨rfl, h⟩

/-- Sweeps change no other answer, wherever they stand in a run. -/
theorem Agree.answers {a b : ItemStore} {start : Stamp} (h : Agree a b start) {run : ItemRun}
    (htime : run.Timely) (hstart : ∀ e ∈ run, start.sinceEpoch ≤ e.1.sinceEpoch) :
    (a.answers run).filter (·.1 ≠ .sweep) = b.answers (run.filter (·.2 ≠ .sweep)) := by
  induction run generalizing a b start with
  | nil => rfl
  | cons e rest ih =>
    obtain ⟨now, request⟩ := e
    obtain ⟨hrest, htimely⟩ := List.pairwise_cons.1 htime
    rw [List.forall_mem_cons] at hstart
    have hnow := h.later hstart.1
    by_cases hr : request = .sweep
    · subst hr
      exact ih hnow.sweep htimely hrest
    · obtain ⟨hanswer, hnext⟩ := hnow.serve hr
      have htail := ih hnext htimely hrest
      simp only [ItemStore.answers, List.filter_cons, ne_eq, hr, not_false_eq_true, decide_true,
        if_true]
      rw [hanswer]
      exact congrArg _ htail

/-! ## 7. Arbitration -/

/-- What a store answers now and later about a target. -/
structure Arbitrates (s : ItemStore) (target : NodeId) (now : Stamp) : Prop where
  /-- A put that fails changes nothing. -/
  refused : ∀ item e, (s.serve now (.put item)).2 = .put (.error e) →
    (s.serve now (.put item)).1 = s
  /-- After a put, until its lifetime is over and unless the store is cleared, the item or one with
      a higher sequence number is answered, whatever else is asked for meanwhile. -/
  newest : ∀ x n, x.target = target → x.isMutable = true → x.seq = some n →
    (s.serve now (.put x)).2 = .put (.ok ()) → ∀ (between : ItemRun) (later : Stamp),
      (∀ e ∈ between, OwnedAt target e.2 ∧ e.2 ≠ .clear) → (∀ e ∈ between, now.sinceEpoch ≤
        e.1.sinceEpoch ∧ e.1.sinceEpoch ≤ later.sinceEpoch) →
      later.sinceEpoch < s.endOfLife now → ∃ y m,
        (((s.serve now (.put x)).1.after between).serve later (.get target none)).2 =
          .got (some y) ∧ y.seq = some m ∧ n ≤ m ∧ (m = n → y = x)
  /-- The live item can be put again, and then lives as long as one that is put now. -/
  renewed : ∀ x, (s.serve now (.get target none)).2 = .got (some x) →
    (s.serve now (.put x)).2 = .put (.ok ()) ∧
      (s.serve now (.put x)).1.lookup target = some ⟨x, s.endOfLife now⟩
  /-- Another item with a sequence number that is not above the live one is refused. -/
  stale : ∀ x y m n, (s.serve now (.get target none)).2 = .got (some x) → x.seq = some m →
    y.target = target → y.verify = true → y.seq = some n → y ≠ x → n ≤ m →
      (s.serve now (.put y)).2 = .put (.error (.staleSequence m n))
  /-- The live item is answered to who knows a sequence number if its own is above that. -/
  newer : ∀ n y, (s.serve now (.get target (some n))).2 = .got (some y) ↔
    (s.serve now (.get target none)).2 = .got (some y) ∧ ∃ m, y.seq = some m ∧ n < m

theorem get_of_holds {s : ItemStore} {x : Item} {n : Sequence} {expiry : Int} {now : Stamp}
    (h : s.Holds x n expiry) (hnow : now.sinceEpoch < expiry) :
    ∃ y m, s.get x.target none now = some y ∧ y.seq = some m ∧ n ≤ m ∧ (m = n → y = x) := by
  obtain ⟨k, m, hk, hlong, hm, hle, hsame⟩ := h
  have hlive := live?_eq_some.2 ⟨hk, isExpired_eq_false.2 (Int.lt_of_lt_of_le hnow hlong)⟩
  exact ⟨k.item, m, get_none_eq_some.2 ⟨k, hlive, rfl⟩, hm, hle, hsame⟩

theorem Owned.arbitrates {s : ItemStore} {target : NodeId} (hs : Owned target s) (now : Stamp) :
    s.Arbitrates target now := by
  have hlive : ∀ y, (s.serve now (.get target none)).2 = .got (some y) →
      ∃ k, s.live? target now = some k ∧ k.item = y := by
    intro y hy
    exact get_none_eq_some.1 (ItemAnswer.got.inj hy)
  constructor
  case refused =>
    intro item e he
    cases h : s.put item now with
    | error e' => rw [serve_put_error h]
    | ok s' =>
      rw [serve_put_ok h] at he
      cases he
  case newest =>
    intro x n ht hm hn hput between later hreq htime hlater
    subst ht
    cases h : s.put x now with
    | error e =>
      rw [serve_put_error h] at hput
      cases hput
    | ok s' =>
      have httl := serve_ttl s now (.put x)
      rw [serve_put_ok h] at httl ⊢
      have hholds := holds_of_put h hn
      have hafter := hholds.after (distinct_of_put hs.distinct h) hreq fun e he => by
        have hnow := (htime e he).1
        have hle := (htime e he).2
        unfold endOfLife at hlater ⊢
        rw [httl]
        omega
      obtain ⟨y, m, hy, hseq⟩ := get_of_holds hafter hlater
      exact ⟨y, m, congrArg _ hy, hseq⟩
  case renewed =>
    intro x hx
    obtain ⟨k, hk, rfl⟩ := hlive x hx
    obtain ⟨ht, -, hv⟩ := hs.kept k (live?_eq_some.1 hk).1
    have hnone : s.conflict? k.item now = none := by
      rw [Option.eq_none_iff_forall_ne_some]
      rintro ⟨current, attempted⟩ hc
      obtain ⟨k', hk', -, hne, -⟩ := conflict?_eq_some.1 hc
      rw [ht, hk] at hk'
      cases hk'
      exact hne rfl
    have hput := put_eq_ok.2 ⟨hv, hnone, rfl⟩
    rw [serve_put_ok hput]
    refine ⟨rfl, ?_⟩
    have hlookup := lookup_of_put hput target
    rw [if_pos ht.symm] at hlookup
    exact hlookup
  case stale =>
    intro x y m n hx hm hyt hv hn hne hle
    obtain ⟨k, hk, rfl⟩ := hlive x hx
    have hrank : rank k.item = m := by
      unfold rank
      rw [hm]
      rfl
    subst hyt hrank
    have hc := conflict?_eq_some.2 ⟨k, hk, hn, fun e => hne e.symm, hle, rfl⟩
    have hput := put_eq_error.2 (.inr ⟨hv, _, _, hc, rfl⟩)
    rw [serve_put_error hput]
  case newer =>
    intro n y
    have hgot : ∀ known, (s.serve now (.get target known)).2 = .got (some y) ↔
        s.get target known now = some y :=
      fun known => ⟨fun h => ItemAnswer.got.inj h, fun h => congrArg _ h⟩
    rw [hgot, hgot, get_some_eq_some]
    apply and_congr_right
    intro hy
    obtain ⟨k, hk, rfl⟩ := get_none_eq_some.1 hy
    obtain ⟨-, hm, hv⟩ := hs.kept k (live?_eq_some.1 hk).1
    obtain ⟨q, hq⟩ := Item.seq_of_verify hm hv
    rw [hq]
    simp

/-- After every run of a store that was empty at first, with the clock not going back: at a target
    where all items that were put have an owner, whether or not they are well formed, puts are
    arbitrated by their sequence numbers; and the run would have had the same answers without its
    sweeps. -/
theorem arbitration_in_runs (ttl : Nat) (run : ItemRun) (htime : run.Timely) (target : NodeId)
    (howned : ∀ e ∈ run, OwnedAt target e.2) :
    (∀ now, ((empty ttl).after run).Arbitrates target now) ∧
      ((empty ttl).answers run).filter (·.1 ≠ .sweep) =
        (empty ttl).answers (run.filter (·.2 ≠ .sweep)) := by
  constructor
  · intro now
    exact ((owned_empty target ttl).after howned).arbitrates now
  · cases run with
    | nil => rfl
    | cons e rest =>
      have hsame : Agree (empty ttl) (empty ttl) e.1 :=
        ⟨rfl, List.nodup_nil, List.nodup_nil, fun _ => rfl⟩
      refine hsame.answers htime ?_
      rw [List.forall_mem_cons]
      exact ⟨Int.le_refl _, (List.pairwise_cons.1 htime).1⟩

/-- An item is put, and before it expires an older one of the same key and a sweep come. -/
theorem arbitration_in_runs_of_older_put :
    ∃ (run : ItemRun) (target : NodeId),
      run.Timely ∧ (∀ e ∈ run, OwnedAt target e.2) ∧
        run.map (·.2) = [.put (neutralRecord [2] 2).item, .sweep, .put (neutralRecord [1] 1).item] ∧
        (neutralRecord [1] 1).item.target = target ∧
        (∀ now, ((empty 60000).after run).Arbitrates target now) ∧
        ((empty 60000).answers run).filter (·.1 ≠ .sweep) =
          (empty 60000).answers (run.filter (·.2 ≠ .sweep)) := by
  let run : ItemRun := [(.ofClock 0 1, .put (neutralRecord [2] 2).item), (.ofClock 0 2, .sweep),
    (.ofClock 0 3, .put (neutralRecord [1] 1).item)]
  have htime : run.Timely := by
    unfold ItemRun.Timely
    decide +kernel
  have howned : ∀ e ∈ run, OwnedAt (neutralRecord [1] 1).item.target e.2 := by
    intro e he
    rcases List.mem_cons.1 he with rfl | he
    · exact fun _ => rfl
    · rcases List.mem_cons.1 he with rfl | he
      · trivial
      · rw [List.mem_singleton.1 he]
        exact fun _ => rfl
  have h := arbitration_in_runs 60000 run htime _ howned
  exact ⟨run, _, htime, howned, rfl, rfl, h⟩

end ItemStore

end SignedRecords
