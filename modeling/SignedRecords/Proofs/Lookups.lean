import SignedRecords.Dht.Client.Search

/-!
# What a search reports and answers

The nodes of the DHT may do what they like: each query fails or brings any item and any nodes, in
any order, and the search reads its reports whenever it does. Still all items that a search handles
were brought by a reply and hold at its target.

Main statements: `Lookup.holdsAt_of_answer` for one reply, and `SearchEnds.sound` for whole
searches.
-/

namespace SignedRecords

/-! ## 1. Lookups -/

namespace Lookup

@[simp] theorem ask_target (slots : Nat) (l : Lookup) : (ask slots l).1.target = l.target := by
  induction slots generalizing l with
  | zero => rfl
  | succ slots ih =>
    unfold ask
    split
    · rfl
    · exact ih _

@[simp] theorem proceed_target (l : Lookup) (events : List LookupEvent) :
    (l.proceed events).lookup.target = l.target := by
  simp only [proceed]
  split
  · exact ask_target _ l
  · exact ask_target _ l

/-- Asking on reports no items. -/
theorem mem_events_of_proceed {l : Lookup} {events : List LookupEvent} {item : Item}
    (h : .candidate item ∈ (l.proceed events).events) : .candidate item ∈ events := by
  simp only [proceed] at h
  split at h
  · rcases List.mem_append.1 h with h | h
    · exact h
    · cases List.mem_singleton.1 h
  · exact h

@[simp] theorem answer_target (l : Lookup) (id : NodeId) (reply : Option GetReply) :
    (l.answer id reply).lookup.target = l.target := by
  unfold answer
  split
  · cases reply with
    | none => exact proceed_target _ _
    | some reply => exact proceed_target _ _
  · rfl

/-- A reported item is the one of the reply, and holds at the target. -/
theorem holdsAt_of_answer {l : Lookup} {id : NodeId} {reply : Option GetReply} {item : Item}
    (h : .candidate item ∈ (l.answer id reply).events) :
    ∃ r, reply = some r ∧ r.item = some item ∧ item.holdsAt l.target = true := by
  unfold answer at h
  split at h
  · cases reply with
    | none => exact nomatch mem_events_of_proceed h
    | some reply =>
      refine ⟨reply, rfl, ?_⟩
      have hevents := mem_events_of_proceed h
      dsimp only at hevents
      split at hevents
      · rename_i brought hbrought
        split at hevents
        · rename_i hholds
          cases List.mem_singleton.1 hevents
          exact ⟨hbrought, hholds⟩
        · cases hevents
      · cases hevents
  · cases h

end Lookup

/-! ## 2. Searches -/

/-- A search that is running over nodes whose replies bring only certain items. -/
inductive SearchRun (items : Item → Prop) (l : Lookup) : Search → Prop where
  | start : SearchRun items l (.ofLookup l)
  | begins {s : Search} (h : SearchRun items l s) : SearchRun items l s.begin.1
  /-- A query fails or takes too long. -/
  | fails {s : Search} (h : SearchRun items l s) (id : NodeId) :
    SearchRun items l (s.answer id none).1
  /-- A query is replied to. -/
  | replies {s : Search} (h : SearchRun items l s) (id : NodeId) (reply : GetReply)
      (hitem : ∀ item, reply.item = some item → items item) :
    SearchRun items l (s.answer id (some reply)).1
  /-- The search reads a report. -/
  | receives {s s' : Search} (h : SearchRun items l s) (hs : s.receive = .inl s') :
    SearchRun items l s'

/-- The end of a search over such nodes: it reads the report that ends it, or its deadline comes. -/
inductive SearchEnds (items : Item → Prop) (l : Lookup) : SearchEnd → Prop where
  | received {s : Search} {e : SearchEnd} (h : SearchRun items l s) (he : s.receive = .inr e) :
    SearchEnds items l e
  | expired {s : Search} (h : SearchRun items l s) : SearchEnds items l s.expire

/-- Reading many reports at once is reading them one by one. -/
theorem SearchRun.receiveUpTo {items : Item → Prop} {l : Lookup} {s : Search}
    (h : SearchRun items l s) (n : Nat) :
    (∀ s', Search.receiveUpTo n s = .inl s' → SearchRun items l s') ∧
      ∀ e, Search.receiveUpTo n s = .inr e → SearchEnds items l e := by
  induction n generalizing s with
  | zero =>
    refine ⟨fun s' hs => ?_, fun e he => (nomatch he)⟩
    cases hs
    exact h
  | succ n ih =>
    unfold Search.receiveUpTo
    split
    · rename_i next hnext
      exact ih (h.receives hnext)
    · rename_i e he
      refine ⟨fun s' hs => (nomatch hs), fun e' he' => ?_⟩
      cases he'
      exact .received h he

namespace Search

/-- All items in a search were brought by a reply and hold at the target. -/
structure Sound (items : Item → Prop) (target : NodeId) (s : Search) : Prop where
  aims : s.lookup.target = target
  mailbox : ∀ item, .candidate item ∈ s.mailbox → items item ∧ item.holdsAt target = true
  best : ∀ item, s.best = some item → items item ∧ item.holdsAt target = true

/-- Reading a report keeps a search sound, and an item that it answers is one of its own. -/
theorem Sound.receive {items : Item → Prop} {target : NodeId} {s : Search}
    (hs : s.Sound items target) :
    (∀ s', s.receive = .inl s' → s'.Sound items target) ∧
      ∀ e, s.receive = .inr e → ∀ item stats, e.result = .ok (item, stats) →
        items item ∧ item.holdsAt target = true := by
  unfold Search.receive
  split
  · refine ⟨fun s' h => ?_, fun e h => nomatch h⟩
    cases h
    exact hs
  · rename_i item rest hmail
    have hitem := hs.mailbox item (hmail ▸ List.mem_cons_self)
    have hrest : ∀ i, .candidate i ∈ rest → items i ∧ i.holdsAt target = true :=
      fun i hi => hs.mailbox i (hmail ▸ List.mem_cons_of_mem _ hi)
    dsimp only
    split
    · refine ⟨fun s' h => (nomatch h), fun e h item' stats hr => ?_⟩
      cases h
      cases hr
      exact hitem
    · split
      · refine ⟨fun s' h => ?_, fun e h => nomatch h⟩
        cases h
        refine ⟨hs.aims, hrest, fun i hi => ?_⟩
        cases hi
        exact hitem
      · refine ⟨fun s' h => ?_, fun e h => nomatch h⟩
        cases h
        exact ⟨hs.aims, hrest, hs.best⟩
  · rename_i closest rest hmail
    refine ⟨fun s' h => (nomatch h), fun e h item stats hr => ?_⟩
    cases h
    simp only [result] at hr
    split at hr
    · rename_i best hbest
      cases hr
      exact hs.best _ hbest
    · cases hr

/-- A step of the lookup keeps a search sound when the items it reports are. -/
theorem Sound.follow {items : Item → Prop} {target : NodeId} {s : Search}
    (hs : s.Sound items target) {step : LookupStep} (htarget : step.lookup.target = target)
    (hevents : ∀ item, .candidate item ∈ step.events →
      items item ∧ item.holdsAt target = true) : (s.follow step).Sound items target := by
  refine ⟨htarget, fun item hi => ?_, hs.best⟩
  rcases List.mem_append.1 hi with hi | hi
  · exact hs.mailbox item hi
  · exact hevents item hi

end Search

theorem SearchRun.sound {items : Item → Prop} {l : Lookup} {s : Search}
    (h : SearchRun items l s) : s.Sound items l.target := by
  induction h with
  | start => exact ⟨rfl, fun item hi => (nomatch hi), fun item hi => nomatch hi⟩
  | begins _ ih =>
    refine ih.follow ((Lookup.proceed_target _ _).trans ih.aims) fun item hi => ?_
    exact nomatch Lookup.mem_events_of_proceed hi
  | fails _ id ih =>
    refine ih.follow ((Lookup.answer_target _ _ _).trans ih.aims) fun item hi => ?_
    obtain ⟨r, hr, -⟩ := Lookup.holdsAt_of_answer hi
    cases hr
  | replies _ id reply hitem ih =>
    refine ih.follow ((Lookup.answer_target _ _ _).trans ih.aims) fun item hi => ?_
    obtain ⟨r, hr, hbrought, hholds⟩ := Lookup.holdsAt_of_answer hi
    cases hr
    rw [ih.aims] at hholds
    exact ⟨hitem item hbrought, hholds⟩
  | receives _ hs ih => exact ih.receive.1 _ hs

/-- An item that a search answers was brought by a reply and holds at the target. -/
theorem SearchEnds.sound {items : Item → Prop} {l : Lookup} {e : SearchEnd}
    (h : SearchEnds items l e) {item : Item} {stats : LookupStats}
    (hr : e.result = .ok (item, stats)) : items item ∧ item.holdsAt l.target = true := by
  cases h with
  | received hrun he => exact hrun.sound.receive.2 e he item stats hr
  | expired hrun => cases hr

end SignedRecords
