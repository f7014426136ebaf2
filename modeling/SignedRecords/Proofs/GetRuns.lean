import SignedRecords.Dht.Client.Search
import SignedRecords.Proofs.KeptItems
import SignedRecords.Proofs.Lookups

/-!
# Searches in a network

A search follows a lookup through a network and reads its reports whenever it does. What it answers
in the end is at least as new as any item that one of the nearest nodes has offered.

Main statements: `GetRun.sound` and `GetSound.ends`.
-/

namespace SignedRecords

open RoutingTable (nearestOf)
open Simulation (Network)

/-! ## 1. Runs -/

/-- A search of `asker` that has begun in a network and has not ended. -/
inductive Surroundings.GetRun (s : Surroundings) (asker : Peer) (n : LocalNetwork) (l : Lookup) :
    Walk → Search → Prop where
  | begins : GetRun s asker n l (.begin n l) (Search.ofLookup l).begin.1
  | turns {w w' : Walk} {g : Search} (h : GetRun s asker n l w g) (ht : s.Turn asker w w') :
    GetRun s asker n l w' g
  | arrives {w : Walk} {g : Search} (h : GetRun s asker n l w g) {id : NodeId}
      {reply : Option GetReply} (hreply : (id, reply) ∈ w.underway) :
    GetRun s asker n l (w.arrive id reply) (g.answer id reply).1
  /-- The search reads a report. -/
  | reads {w : Walk} {g g' : Search} (h : GetRun s asker n l w g) (hg : g.receive = .inl g') :
    GetRun s asker n l w g'

/-- A search can follow its lookup on every way through a network. -/
theorem Surroundings.WalkRun.searches {s : Surroundings} {asker : Peer} {n : LocalNetwork}
    {l : Lookup} {w : Walk} (h : s.WalkRun asker n l w) : ∃ g, s.GetRun asker n l w g := by
  induction h with
  | begins => exact ⟨_, .begins⟩
  | turns _ ht ih =>
    obtain ⟨g, hg⟩ := ih
    exact ⟨g, hg.turns ht⟩
  | arrives _ hreply ih =>
    obtain ⟨g, hg⟩ := ih
    exact ⟨_, hg.arrives hreply⟩

/-! ## 2. Reports -/

/-- The item that a reply brings, if it holds at the target. -/
def GetReply.brought (target : NodeId) (reply : Option GetReply) : List Item :=
  (reply.bind (·.item)).toList.filter (·.holdsAt target)

namespace Lookup

/-- The last report of a lookup, if it is at its end. -/
def farewell (l : Lookup) : List LookupEvent :=
  if l.outstanding = 0 then [.stalled l.closest] else []

theorem events_of_proceed (l : Lookup) (events : List LookupEvent) :
    (l.proceed events).events = events ++ (l.proceed events).lookup.farewell := by
  unfold proceed farewell
  dsimp only
  split
  · rfl
  · exact (List.append_nil events).symm

/-- A query that ends is reported with the item that it brings, and with the end of the lookup. -/
theorem events_of_answer {l : Lookup} {id : NodeId} (hq : l.isQuerying id = true)
    (reply : Option GetReply) : (l.answer id reply).events =
      (GetReply.brought l.target reply).map .candidate ++ (l.answer id reply).lookup.farewell := by
  unfold answer
  rw [if_pos hq]
  cases reply with
  | none => exact events_of_proceed _ _
  | some reply =>
    have hevents : (l.accept id reply).2 =
        (GetReply.brought l.target (some reply)).map .candidate := by
      unfold accept GetReply.brought
      dsimp only [Option.bind_some]
      cases reply.item with
      | none => rfl
      | some item =>
        have htarget : (l.mark id .responded).target = l.target := rfl
        cases hholds : item.holdsAt l.target with
        | true => simp [htarget, hholds]
        | false => simp [htarget, hholds]
    dsimp only
    rw [events_of_proceed, hevents]

end Lookup

namespace Search

theorem improves_eq_true {item best : Item} {m : Sequence} (hbest : best.seq = some m)
    (h : improves item (some best) = true) : ∃ n, item.seq = some n ∧ m ≤ n := by
  unfold improves at h
  dsimp only at h
  rw [hbest] at h
  cases hseq : item.seq with
  | none => simp [hseq] at h
  | some n =>
    rw [hseq] at h
    exact ⟨n, rfl, of_decide_eq_true h⟩

theorem improves_eq_false {item best : Item} {n : Sequence} (hseq : item.seq = some n)
    (h : improves item (some best) = false) : ∃ m, best.seq = some m ∧ n < m := by
  unfold improves at h
  dsimp only at h
  rw [hseq] at h
  cases hbest : best.seq with
  | none => simp [hbest] at h
  | some m =>
    rw [hbest] at h
    exact ⟨m, rfl, Int64.not_le.1 (of_decide_eq_false h)⟩

/-- Reading a report of an item with an owner. -/
theorem receive_candidate {g : Search} {item : Item} {rest : List LookupEvent}
    (hmail : g.mailbox = .candidate item :: rest) (hm : item.isMutable = true) :
    g.receive = .inl { g with
      mailbox := rest
      best := if improves item g.best then some item else g.best } := by
  unfold receive
  rw [hmail]
  dsimp only
  rw [hm]
  cases improves item g.best <;> rfl

theorem receive_stalled {g : Search} {closest : List Peer} {rest : List LookupEvent}
    (hmail : g.mailbox = .stalled closest :: rest) : g.receive = .inr ⟨g.result, closest⟩ := by
  unfold receive
  rw [hmail]
  rfl

theorem receive_nil {g : Search} (hmail : g.mailbox = []) : g.receive = .inl g := by
  unfold receive
  rw [hmail]

end Search

/-! ## 3. What a search finds -/

/-- An item that holds at a target and is at least as new as a sequence number. -/
def Item.AtLeast (target : NodeId) (m : Sequence) (item : Item) : Prop :=
  item.holdsAt target = true ∧ ∃ n, item.seq = some n ∧ m ≤ n

/-- A reply that brings no item without an owner, and such an item if it is from a certain node. -/
structure Offers (target : NodeId) (m : Sequence) (id : NodeId) (e : QueryEnd) : Prop where
  owned : ∀ reply item, e.2 = some reply → reply.item = some item → item.isMutable = true
  offered : e.1 = id → ∃ reply item, e.2 = some reply ∧ reply.item = some item ∧
    item.AtLeast target m

namespace Surroundings

/-- What is true of a search all along its way. -/
structure GetSound (s : Surroundings) (asker : Peer) (n : LocalNetwork) (l : Lookup) (m : Sequence)
    (id : NodeId) (w : Walk) (g : Search) : Prop where
  walk : s.WalkRun asker n l w
  lookup : g.lookup = w.step.lookup
  run : SearchRun (fun item => item.isMutable = true) l g
  /-- Items wait to be read, and then the end of the lookup. -/
  mailbox : ∃ items : List Item, g.mailbox = items.map .candidate ++ w.step.lookup.farewell
  /-- The item that was offered waits to be read, or the best one so far is as new. -/
  found : (∃ reply, (id, reply) ∈ w.past) →
    (∃ item, .candidate item ∈ g.mailbox ∧ item.AtLeast l.target m) ∨
      ∃ item, g.best = some item ∧ item.AtLeast l.target m

variable {s : Surroundings} {asker : Peer} {n : LocalNetwork} {l : Lookup} {m : Sequence}
  {id : NodeId} {w : Walk} {g : Search}

theorem GetRun.walk (h : s.GetRun asker n l w g) : s.WalkRun asker n l w := by
  induction h with
  | begins => exact .begins
  | turns _ ht ih => exact ih.turns ht
  | arrives _ hreply ih => exact ih.arrives hreply
  | reads _ _ ih => exact ih

/-- Reading a report loses no offered item. -/
theorem GetSound.receive (h : s.GetSound asker n l m id w g) {g' : Search}
    (hg : g.receive = .inl g') : s.GetSound asker n l m id w g' := by
  obtain ⟨items, hmail⟩ := h.mailbox
  have hrun := h.run.receives hg
  cases items with
  | nil =>
    rw [List.map_nil, List.nil_append] at hmail
    unfold Lookup.farewell at hmail
    split at hmail
    · rw [Search.receive_stalled hmail] at hg
      cases hg
    · rw [Search.receive_nil hmail] at hg
      cases hg
      exact h
  | cons item rest =>
    rw [List.map_cons, List.cons_append] at hmail
    obtain ⟨howner, hholds⟩ := h.run.sound.mailbox item (hmail ▸ List.mem_cons_self)
    rw [Search.receive_candidate hmail howner] at hg
    cases hg
    refine ⟨h.walk, h.lookup, hrun, ⟨rest, rfl⟩, fun hpast => ?_⟩
    rcases h.found hpast with ⟨offered, hoffered, hnew⟩ | ⟨best, hbest, hnew⟩
    · rw [hmail] at hoffered
      rcases List.mem_cons.1 hoffered with heq | hoffered
      · -- The offered item itself is read.
        cases heq
        right
        cases himproves : Search.improves item g.best with
        | true => exact ⟨item, rfl, hnew⟩
        | false =>
          cases hbest : g.best with
          | none =>
            rw [hbest] at himproves
            cases himproves
          | some best =>
            rw [hbest] at himproves
            obtain ⟨-, q, hq, hle⟩ := hnew
            obtain ⟨r, hr, hqr⟩ := Search.improves_eq_false hq himproves
            exact ⟨best, rfl,
              (h.run.sound.best best hbest).2, r, hr, Int64.le_trans hle (Int64.le_of_lt hqr)⟩
      · exact .inl ⟨offered, hoffered, hnew⟩
    · right
      dsimp only
      rw [hbest]
      cases himproves : Search.improves item (some best) with
      | true =>
        obtain ⟨-, q, hq, hle⟩ := hnew
        obtain ⟨r, hr, hqr⟩ := Search.improves_eq_true hq himproves
        exact ⟨item, rfl, hholds, r, hr, Int64.le_trans hle hqr⟩
      | false => exact ⟨best, rfl, hnew⟩

/-- An outstanding query ends; what it brings waits to be read. -/
theorem GetSound.arrives (h : s.GetSound asker n l m id w g) {other : NodeId}
    {reply : Option GetReply} (hreply : (other, reply) ∈ w.underway)
    (hquery : w.step.lookup.isQuerying other = true) (hopen : w.step.lookup.outstanding ≠ 0)
    (htarget : w.step.lookup.target = l.target) (hoffer : Offers l.target m id (other, reply)) :
    s.GetSound asker n l m id (w.arrive other reply) (g.answer other reply).1 := by
  have hevents := Lookup.events_of_answer hquery reply
  obtain ⟨items, hmail⟩ := h.mailbox
  have hquiet : w.step.lookup.farewell = [] := if_neg hopen
  rw [hquiet, List.append_nil] at hmail
  have hafter : (g.answer other reply).1 = { g with
      lookup := (w.step.lookup.answer other reply).lookup
      mailbox := g.mailbox ++ (w.step.lookup.answer other reply).events } := by
    unfold Search.answer Search.follow
    rw [h.lookup]
  constructor
  case walk => exact h.walk.arrives hreply
  case lookup =>
    rw [hafter]
    rfl
  case run =>
    cases reply with
    | none => exact h.run.fails other
    | some reply => exact h.run.replies other reply fun item hitem => hoffer.owned _ _ rfl hitem
  case mailbox =>
    rw [hafter]
    refine ⟨items ++ GetReply.brought w.step.lookup.target reply, ?_⟩
    dsimp only
    rw [hmail, hevents, List.map_append, List.append_assoc]
    rfl
  case found =>
    rw [hafter]
    rintro ⟨reply', hpast⟩
    rcases List.mem_cons.1 hpast with heq | hpast
    · -- The node has just replied.
      cases heq
      obtain ⟨r, item, hr, hitem, hnew⟩ := hoffer.offered rfl
      cases hr
      refine .inl ⟨item, List.mem_append_right _ ?_, hnew⟩
      rw [hevents, htarget]
      refine List.mem_append_left _ (List.mem_map_of_mem (List.mem_filter.2 ⟨?_, hnew.1⟩))
      show item ∈ r.item.toList
      rw [hitem]
      exact List.mem_singleton.2 rfl
    · rcases h.found ⟨reply', hpast⟩ with ⟨item, hitem, hnew⟩ | hbest
      · exact .inl ⟨item, List.mem_append_left _ hitem, hnew⟩
      · exact .inr hbest

theorem GetRun.sound {target : NodeId} {known : Option Sequence} {alpha : Nat} {seeds : List Peer}
    (ho : s.Opens asker target seeds n)
    (hoffers : ∀ w, s.WalkRun asker n (.ofSeeds asker.id target known s.k alpha seeds) w →
      ∀ e ∈ w.underway, Offers target m id e)
    (h : s.GetRun asker n (.ofSeeds asker.id target known s.k alpha seeds) w g) :
    s.GetSound asker n (.ofSeeds asker.id target known s.k alpha seeds) m id w g := by
  induction h with
  | begins =>
    refine ⟨.begins, rfl, SearchRun.start.begins, ⟨[], ?_⟩, fun ⟨_, hpast⟩ => (nomatch hpast)⟩
    exact Lookup.events_of_proceed _ []
  | turns _ ht ih =>
    obtain ⟨hstep, hpast⟩ := ht.step_eq
    refine ⟨ih.walk.turns ht, ?_, ih.run, ?_, ?_⟩
    · rw [hstep]
      exact ih.lookup
    · rw [hstep]
      exact ih.mailbox
    · rw [hpast]
      exact ih.found
  | arrives _ hreply ih =>
    have hguides := ih.walk.guides ho
    exact ih.arrives hreply (hguides.run.tells.isQuerying_iff.2 (hguides.waiting _ hreply))
      (hguides.outstanding_ne_zero hreply) hguides.target_known.1 (hoffers _ ih.walk _ hreply)
  | reads _ hg ih => exact ih.receive hg

/-- A search that has read the end of its lookup answers an item that is as new as the one offered
    by a node that has replied. -/
theorem GetSound.ends (h : s.GetSound asker n l m id w g)
    (hpast : w.step.lookup.outstanding = 0 → ∃ reply, (id, reply) ∈ w.past) {e : SearchEnd}
    (he : g.receive = .inr e) : ∃ item stats, e.result = .ok (item, stats) ∧
      item.isMutable = true ∧ item.AtLeast l.target m := by
  obtain ⟨items, hmail⟩ := h.mailbox
  cases items with
  | cons item rest =>
    rw [List.map_cons, List.cons_append] at hmail
    have howner := (h.run.sound.mailbox item (hmail ▸ List.mem_cons_self)).1
    rw [Search.receive_candidate hmail howner] at he
    cases he
  | nil =>
    rw [List.map_nil, List.nil_append] at hmail
    by_cases hzero : w.step.lookup.outstanding = 0
    · rw [Lookup.farewell, if_pos hzero] at hmail
      rw [Search.receive_stalled hmail] at he
      cases he
      rcases h.found (hpast hzero) with ⟨item, hitem, -⟩ | ⟨item, hbest, hnew⟩
      · rw [hmail] at hitem
        cases List.mem_singleton.1 hitem
      · refine ⟨item, g.lookup.stats, ?_, (h.run.sound.best item hbest).1, hnew⟩
        unfold Search.result
        rw [hbest]
    · rw [Lookup.farewell, if_neg hzero] at hmail
      rw [Search.receive_nil hmail] at he
      cases he

/-- When the lookup is at its end, reading all reports reads that end. -/
theorem GetSound.receiveAll (h : s.GetSound asker n l m id w g)
    (hzero : w.step.lookup.outstanding = 0) : ∃ e g', g.receiveAll = .inr e ∧
      s.GetSound asker n l m id w g' ∧ g'.receive = .inr e := by
  obtain ⟨items, hmail⟩ := h.mailbox
  rw [Lookup.farewell, if_pos hzero] at hmail
  have hread : ∀ count, items.length < count → ∃ e g', Search.receiveUpTo count g = .inr e ∧
      s.GetSound asker n l m id w g' ∧ g'.receive = .inr e := by
    induction items generalizing g with
    | nil =>
      intro count hcount
      obtain ⟨count, rfl⟩ := Nat.exists_eq_succ_of_ne_zero (Nat.ne_of_gt hcount)
      have hreceive := Search.receive_stalled hmail
      unfold Search.receiveUpTo
      rw [hreceive]
      exact ⟨_, g, rfl, h, hreceive⟩
    | cons item rest ih =>
      intro count hcount
      obtain ⟨count, rfl⟩ := Nat.exists_eq_succ_of_ne_zero (Nat.ne_zero_of_lt hcount)
      rw [List.map_cons, List.cons_append] at hmail
      have howner := (h.run.sound.mailbox item (hmail ▸ List.mem_cons_self)).1
      have hreceive := Search.receive_candidate hmail howner
      unfold Search.receiveUpTo
      rw [hreceive]
      exact ih (h.receive hreceive) rfl count (Nat.lt_of_succ_lt_succ hcount)
  refine hread _ ?_
  rw [hmail, List.length_append, List.length_map, List.length_singleton]
  exact Nat.lt_succ_self _

end Surroundings

end SignedRecords
