import SignedRecords.Dht.Client.Put
import SignedRecords.Proofs.PutRuns
import SignedRecords.Proofs.SearchOutcomes

/-!
# How a put ends

A put waits for the stall of its lookup, sends the item to the nodes of the stall, each on its own,
and collects their answers until all have come or the deadline does. What is left to do is at every
moment told by what has happened: each node of the stall has been sent the item once or waits for
its turn, and each has answered once or is waited for.

Main statement: `put_fares`.
-/

namespace SignedRecords

/-! ## 1. What happens in a put -/

/-- What has happened in a put so far. -/
structure PutLog where
  /-- The queries of the lookup that have ended, the last one first. -/
  past : List QueryEnd
  /-- The nodes of the stall, when it has been read. -/
  closest : Option (List Peer)
  /-- The nodes of the stall whose turn to be sent the item has not come. -/
  unsent : List Peer
  sent : List Peer
  /-- The answers of nodes that were sent the item, in the order in which they came. -/
  heard : List (Peer × Bool)

namespace PutLog

/-- Before the stall has been read. -/
def before (past : List QueryEnd) : PutLog := ⟨past, none, [], [], []⟩

/-- Some node has acknowledged. -/
def Acknowledged (g : PutLog) : Prop := ∃ p, (p, true) ∈ g.heard

/-- The stall has been read, and all its nodes have answered. -/
def Finished (g : PutLog) : Prop :=
  ∃ closest, g.closest = some closest ∧ (g.heard.map (·.1)).Perm closest

end PutLog

/-- A put that has begun and has not ended. -/
inductive PutCourse (item : Item) (l : Lookup) : PutLog → ItemPut → Prop where
  | begins {p : ItemPut} {queries : List Peer}
      (hp : (ItemPut.ofLookup item l).begin = .goesOn p queries) :
    PutCourse item l (.before []) p
  /-- An outstanding query of the lookup ends. -/
  | answers {g : PutLog} {p p' : ItemPut} (h : PutCourse item l g p) {id : NodeId}
      (reply : Option GetReply) (hq : p.lookup.isQuerying id = true) {queries : List Peer}
      (hp : p.answer id reply = .goesOn p' queries) :
    PutCourse item l { g with past := (id, reply) :: g.past } p'
  /-- The put reads an item, or nothing. -/
  | reads {g : PutLog} {p p' : ItemPut} (h : PutCourse item l g p) {queries : List Peer}
      (hp : p.receive = .goesOn p' queries) : PutCourse item l g p'
  /-- The put reads the stall. -/
  | stalls {g : PutLog} {p p' : ItemPut} (h : PutCourse item l g p) {nodes : List Peer}
      (hp : p.receive = .sends p' nodes) :
    PutCourse item l { g with closest := some nodes, unsent := nodes } p'
  /-- It is the turn of a node to be sent the item. -/
  | sends {g : PutLog} {p : ItemPut} (h : PutCourse item l g p) {earlier later : List Peer}
      {peer : Peer} (hturn : g.unsent = earlier ++ peer :: later) :
    PutCourse item l { g with unsent := earlier ++ later, sent := g.sent ++ [peer] } p
  /-- A node that was sent the item answers, and others are waited for. -/
  | hears {g : PutLog} {p p' : ItemPut} (h : PutCourse item l g p) {peer : Peer} {ok : Bool}
      (hsent : peer ∈ g.sent) (hnew : ∀ e ∈ g.heard, e.1 ≠ peer) {queries : List Peer}
      (hp : p.acknowledge peer.id ok = .goesOn p' queries) :
    PutCourse item l { g with heard := g.heard ++ [(peer, ok)] } p'

/-- The end of a put, and whether the deadline has come. -/
inductive PutOutcome (item : Item) (l : Lookup) :
    PutLog → Bool → Except TransportError LookupStats → Prop where
  /-- The deadline comes while the first queries are started. -/
  | opens {ended : List QueryEnd} {reports : List LookupEvent} {more : List Peer} {now : Lookup}
      (hm : l.Midway ended reports more now) :
    PutOutcome item l (.before ended) true (ItemPut.ofLookup item now).expire
  /-- The put reads a stall without nodes. -/
  | reads {g : PutLog} {p : ItemPut} (h : PutCourse item l g p)
      {result : Except TransportError LookupStats} {learned : List Peer}
      (hp : p.receive = .ends result learned) :
    PutOutcome item l { g with closest := some [] } false result
  /-- The last node answers. -/
  | hears {g : PutLog} {p : ItemPut} (h : PutCourse item l g p) {peer : Peer} {ok : Bool}
      (hsent : peer ∈ g.sent) (hnew : ∀ e ∈ g.heard, e.1 ≠ peer)
      {result : Except TransportError LookupStats} {learned : List Peer}
      (hp : p.acknowledge peer.id ok = .ends result learned) :
    PutOutcome item l { g with heard := g.heard ++ [(peer, ok)] } false result
  | expires {g : PutLog} {p : ItemPut} (h : PutCourse item l g p) {ended : List QueryEnd}
      {reports : List LookupEvent} {more : List Peer} {now : Lookup}
      (hm : p.lookup.Midway ended reports more now) :
    PutOutcome item l { g with past := ended ++ g.past } true { p with lookup := now }.expire

/-! ## 2. What a step does -/

namespace ItemPut

variable {p : ItemPut} {waiting : List Peer} {tried acks : Nat}

theorem receive_sends_ne_nil {p' : ItemPut} {nodes : List Peer} (h : p.receive = .sends p' nodes) :
    nodes ≠ [] := by
  rintro rfl
  obtain ⟨rest, hphase, -⟩ := receive_sends h
  unfold receive at h
  rw [hphase] at h
  cases h

/-- Reading ends a put only with a stall that has no nodes. -/
theorem receive_ends_eq {result : Except TransportError LookupStats} {learned : List Peer}
    (h : p.receive = .ends result learned) :
    (∃ rest, p.phase = .searching (.stalled [] :: rest)) ∧
      result = .error (.putFailed p.lookup.stats) := by
  unfold receive at h
  split at h
  · cases h
  · rename_i rest hphase
    cases h
    exact ⟨⟨rest, hphase⟩, rfl⟩
  · cases h
  · cases h

/-- A node that is waited for answers. -/
theorem acknowledge_of_mem (hphase : p.phase = .storing waiting tried acks) {peer : Peer}
    (hmem : peer ∈ waiting) (ok : Bool) : p.acknowledge peer.id ok =
      if (waiting.filter (·.id != peer.id)).isEmpty then
        .ends (p.result (tried + 1) (acks + [(peer, ok)].countP (·.2))) []
      else .goesOn { p with
        phase := .storing (waiting.filter (·.id != peer.id)) (tried + 1)
          (acks + [(peer, ok)].countP (·.2)) } [] := by
  have hany : waiting.any (·.id == peer.id) = true :=
    List.any_eq_true.2 ⟨peer, hmem, beq_self_eq_true _⟩
  unfold acknowledge
  rw [hphase]
  dsimp only
  rw [if_pos hany]
  cases ok <;> rfl

end ItemPut

/-- With distinct ids, filtering out the id of a node takes out this node. -/
theorem perm_cons_filter_id {nodes : List Peer} (hn : (nodes.map (·.id)).Nodup) {peer : Peer}
    (hmem : peer ∈ nodes) : nodes.Perm (peer :: nodes.filter (·.id != peer.id)) := by
  have hnodes : nodes.Nodup := List.Nodup.of_map _ hn
  have hnew : peer ∉ nodes.filter (·.id != peer.id) := by simp
  refine (List.perm_ext_iff_of_nodup hnodes (List.nodup_cons.2 ⟨hnew, hnodes.filter _⟩)).2 ?_
  intro q
  rw [List.mem_cons, List.mem_filter, bne_iff_ne]
  constructor
  · intro hq
    by_cases hid : q.id = peer.id
    · exact .inl (List.inj_on_of_nodup_map hn hq hmem hid)
    · exact .inr ⟨hq, hid⟩
  · rintro (rfl | ⟨hq, -⟩)
    · exact hmem
    · exact hq

/-! ## 3. The course of a put -/

/-- The stall has been read: its nodes, who differ, have been sent the item or wait for their turn,
    and only who was sent it has answered. -/
structure PutLog.Stalls (g : PutLog) (l : Lookup) (closest : List Peer) : Prop where
  read : g.closest = some closest
  run : ∃ asked step, LookupRun l g.past asked step ∧ .stalled closest ∈ step.events
  distinct : (closest.map (·.id)).Nodup
  turns : (g.unsent ++ g.sent).Perm closest
  answered : ∀ e ∈ g.heard, e.1 ∈ g.sent

/-- Where a put stands, told by what has happened. -/
inductive ItemPut.Phases (p : ItemPut) (l : Lookup) (g : PutLog) : Prop where
  | searching {mailbox : List LookupEvent} {read : List Item}
      (hphase : p.phase = .searching mailbox) (hlog : g = .before g.past)
      (hposted : Posted l.target g.past read p.lookup.parting mailbox)
  | storing {waiting closest : List Peer}
      (hphase : p.phase = .storing waiting g.heard.length (g.heard.countP (·.2)))
      (hparting : p.lookup.parting = some closest) (hstalls : g.Stalls l closest)
      (hleft : waiting ≠ []) (hwaiting : (waiting ++ g.heard.map (·.1)).Perm closest)

/-- What is true of a put all along its course. -/
structure ItemPut.Recounts (p : ItemPut) (l : Lookup) (g : PutLog) : Prop where
  aims : p.lookup.target = l.target
  run : ∃ asked step, LookupRun l g.past asked step ∧ p.lookup = step.lookup
  phases : p.Phases l g

/-- The nodes of a stall have distinct ids. -/
theorem Lookup.Recalls.closest_nodup {l : Lookup} {learned asked : List Peer}
    {past : List QueryEnd} (h : l.Recalls learned asked past) : (l.closest.map (·.id)).Nodup := by
  have hsub : l.closest.Sublist l.peers :=
    ((List.take_sublist _ _).trans List.filter_sublist).map _
  exact h.ascending.ids_nodup.sublist (hsub.map _)

namespace ItemPut.Recounts

variable {l : Lookup} {g : PutLog} {p p' : ItemPut}

theorem begins {item : Item} {queries : List Peer}
    (hp : (ItemPut.ofLookup item l).begin = .goesOn p queries) : p.Recounts l (.before []) := by
  cases hp
  exact ⟨Lookup.proceed_target _ _, ⟨_, _, .begins, rfl⟩, .searching rfl rfl (Posted.begin l)⟩

theorem answers (h : p.Recounts l g) {id : NodeId} (reply : Option GetReply)
    (hq : p.lookup.isQuerying id = true) {queries : List Peer}
    (hp : p.answer id reply = .goesOn p' queries) :
    p'.Recounts l { g with past := (id, reply) :: g.past } := by
  obtain ⟨asked, step, hrun, hlookup⟩ := h.run
  cases h.phases with
  | @searching mailbox read hphase hlog hposted =>
    have hafter : p' = { p with
        lookup := (p.lookup.answer id reply).lookup
        phase := .searching (mailbox ++ (p.lookup.answer id reply).events) } := by
      unfold answer follow at hp
      rw [hphase] at hp
      cases hp
      rfl
    subst hafter
    refine ⟨(Lookup.answer_target _ _ _).trans h.aims, ⟨_, _, hrun.ends reply (hlookup ▸ hq), ?_⟩,
      .searching rfl ?_ (hposted.answer h.aims hq reply)⟩
    · rw [hlookup]
    · rw [hlog]
      rfl
  | storing hphase hparting =>
    -- After the stall no query is outstanding.
    rw [Lookup.parting_of_isQuerying hq] at hparting
    cases hparting

theorem reads (h : p.Recounts l g) {queries : List Peer} (hp : p.receive = .goesOn p' queries) :
    p'.Recounts l g := by
  rcases receive_goesOn hp with rfl | ⟨item, rest, hmail, rfl⟩
  · exact h
  · refine ⟨h.aims, h.run, ?_⟩
    cases h.phases with
    | searching hphase hlog hposted =>
      rw [hmail] at hphase
      cases hphase
      exact .searching rfl hlog hposted.head_candidate.1
    | storing hphase =>
      rw [hmail] at hphase
      cases hphase

theorem sends (h : p.Recounts l g) {earlier later : List Peer} {peer : Peer}
    (hturn : g.unsent = earlier ++ peer :: later) :
    p.Recounts l { g with unsent := earlier ++ later, sent := g.sent ++ [peer] } := by
  refine ⟨h.aims, h.run, ?_⟩
  cases h.phases with
  | searching hphase hlog =>
    rw [hlog] at hturn
    simp [PutLog.before] at hturn
  | storing hphase hparting hstalls hleft hwaiting =>
    have hperm : ((earlier ++ later) ++ (g.sent ++ [peer])).Perm (g.unsent ++ g.sent) := by
      rw [hturn, ← List.append_assoc]
      refine (List.perm_append_singleton _ _).trans ?_
      exact (List.perm_middle.symm.append_right g.sent)
    exact .storing hphase hparting ⟨hstalls.read, hstalls.run, hstalls.distinct,
      hperm.trans hstalls.turns, fun e he => List.mem_append_left _ (hstalls.answered e he)⟩ hleft
      hwaiting

end ItemPut.Recounts

section

variable {l : Lookup} {g : PutLog} {closest waiting : List Peer} {peer : Peer}

/-- A node that was sent the item and has not answered is waited for. -/
theorem PutLog.Stalls.mem_waiting (h : g.Stalls l closest)
    (hwaiting : (waiting ++ g.heard.map (·.1)).Perm closest) (hsent : peer ∈ g.sent)
    (hnew : ∀ e ∈ g.heard, e.1 ≠ peer) : peer ∈ waiting := by
  have hmem := hwaiting.mem_iff.2 (h.turns.mem_iff.1 (List.mem_append_right _ hsent))
  refine (List.mem_append.1 hmem).resolve_right fun hheard => ?_
  obtain ⟨e, he, heq⟩ := List.mem_map.1 hheard
  exact hnew e he heq

/-- It answers, and is waited for no longer. -/
theorem PutLog.Stalls.hears (h : g.Stalls l closest)
    (hwaiting : (waiting ++ g.heard.map (·.1)).Perm closest) (hsent : peer ∈ g.sent)
    (hmem : peer ∈ waiting) (ok : Bool) :
    { g with heard := g.heard ++ [(peer, ok)] }.Stalls l closest ∧
      (waiting.filter (·.id != peer.id) ++
        (g.heard ++ [(peer, ok)]).map (·.1)).Perm closest := by
  constructor
  · refine ⟨h.read, h.run, h.distinct, h.turns, fun e he => ?_⟩
    rcases List.mem_append.1 he with he | he
    · exact h.answered e he
    · rw [List.mem_singleton.1 he]
      exact hsent
  · have hids : (waiting.map (·.id)).Nodup := by
      have hboth := (hwaiting.map (·.id)).nodup_iff.2 h.distinct
      exact hboth.sublist ((List.sublist_append_left _ _).map _)
    have hperm := (perm_cons_filter_id hids hmem).append_right (g.heard.map (·.1))
    rw [List.map_append, ← List.append_assoc]
    exact (List.perm_append_singleton _ _).trans (hperm.symm.trans hwaiting)

end

section

variable {localId target : NodeId} {known : Option Sequence} {k alpha : Nat} {seeds : List Peer}
  {g : PutLog} {p p' : ItemPut} {peer : Peer} {ok : Bool} {queries : List Peer} {item : Item}

theorem LookupRun.stalled_of_parting {past : List QueryEnd} {asked : List Peer} {step : LookupStep}
    (h : LookupRun (.ofSeeds localId target known k alpha seeds) past asked step)
    {closest : List Peer} (hparting : step.lookup.parting = some closest) :
    .stalled closest ∈ step.events ∧ (closest.map (·.id)).Nodup := by
  obtain ⟨hzero, rfl⟩ := Lookup.parting_eq_some.1 hparting
  exact ⟨(h.tells.stalled _).2 ⟨hzero, rfl⟩, h.tells.recalls.closest_nodup⟩

theorem ItemPut.Recounts.stalls (h : p.Recounts (.ofSeeds localId target known k alpha seeds) g)
    {nodes : List Peer} (hp : p.receive = .sends p' nodes) :
    p'.Recounts (.ofSeeds localId target known k alpha seeds)
      { g with closest := some nodes, unsent := nodes } := by
  obtain ⟨rest, hmail, rfl⟩ := ItemPut.receive_sends hp
  have hnodes := ItemPut.receive_sends_ne_nil hp
  obtain ⟨asked, step, hrun, hlookup⟩ := h.run
  refine ⟨h.aims, ⟨asked, step, hrun, hlookup⟩, ?_⟩
  cases h.phases with
  | searching hphase hlog hposted =>
    rw [hmail] at hphase
    cases hphase
    have hparting := hposted.head_stalled.1
    obtain ⟨hstalled, hdistinct⟩ := hrun.stalled_of_parting (hlookup ▸ hparting)
    rw [hlog] at hrun ⊢
    exact .storing rfl hparting ⟨rfl, ⟨asked, step, hrun, hstalled⟩, hdistinct,
      List.Perm.of_eq (List.append_nil _), fun e he => (nomatch he)⟩ hnodes
      (List.Perm.of_eq (List.append_nil _))
  | storing hphase =>
    rw [hmail] at hphase
    cases hphase

/-- A put in which a node that was sent the item is waited for. -/
theorem ItemPut.Phases.of_sent {l : Lookup} (h : p.Phases l g) (hsent : peer ∈ g.sent)
    (hnew : ∀ e ∈ g.heard, e.1 ≠ peer) : ∃ waiting closest,
      p.phase = .storing waiting g.heard.length (g.heard.countP (·.2)) ∧ peer ∈ waiting ∧
      p.lookup.parting = some closest ∧ ∀ ok,
      { g with heard := g.heard ++ [(peer, ok)] }.Stalls l closest ∧
        (waiting.filter (·.id != peer.id) ++
          (g.heard ++ [(peer, ok)]).map (·.1)).Perm closest := by
  cases h with
  | searching hphase hlog =>
    rw [hlog] at hsent
    cases hsent
  | storing hphase hparting hstalls hleft hwaiting =>
    have hmem := hstalls.mem_waiting hwaiting hsent hnew
    exact ⟨_, _, hphase, hmem, hparting, hstalls.hears hwaiting hsent hmem⟩

theorem ItemPut.Recounts.hears {l : Lookup} (h : p.Recounts l g) (hsent : peer ∈ g.sent)
    (hnew : ∀ e ∈ g.heard, e.1 ≠ peer) (hp : p.acknowledge peer.id ok = .goesOn p' queries) :
    p'.Recounts l { g with heard := g.heard ++ [(peer, ok)] } := by
  obtain ⟨waiting, closest, hphase, hmem, hparting, hhears⟩ := h.phases.of_sent hsent hnew
  obtain ⟨hstalls, hwaiting⟩ := hhears ok
  rw [ItemPut.acknowledge_of_mem hphase hmem] at hp
  split at hp
  · cases hp
  · rename_i hleft
    cases hp
    refine ⟨h.aims, h.run, .storing ?_ hparting hstalls (by simpa using hleft) hwaiting⟩
    rw [List.length_append, List.countP_append]
    rfl

theorem PutCourse.recounts
    (h : PutCourse item (.ofSeeds localId target known k alpha seeds) g p) :
    p.Recounts (.ofSeeds localId target known k alpha seeds) g := by
  induction h with
  | begins hp => exact .begins hp
  | answers _ reply hq hp ih => exact ih.answers reply hq hp
  | reads _ hp ih => exact ih.reads hp
  | stalls _ hp ih => exact ih.stalls hp
  | sends _ hturn ih => exact ih.sends hturn
  | hears _ hsent hnew hp ih => exact ih.hears hsent hnew hp

end

/-! ## 4. The end of a put -/

/-- The counts of a put: those of its lookup, and those of the answers. -/
def PutLog.stats (g : PutLog) (counts : LookupStats) : LookupStats :=
  ⟨counts.tried + g.heard.length, counts.responses + g.heard.countP (·.2)⟩

/-- What a put answers: one acknowledgement is enough. -/
def PutLog.verdict (g : PutLog) (counts : LookupStats) (error : LookupStats → TransportError) :
    Except TransportError LookupStats :=
  if 0 < g.heard.countP (·.2) then .ok (g.stats counts) else .error (error (g.stats counts))

/-- The three ways in which a put ends. -/
inductive PutTells (l : Lookup) (counts : LookupStats) (g : PutLog) :
    Bool → Except TransportError LookupStats → Prop where
  /-- The deadline comes before the stall has been read. -/
  | lapses (hlog : g = .before g.past) : PutTells l counts g true (.error (.timeout counts))
  /-- All nodes of the stall have answered. -/
  | completes {closest : List Peer} (hstalls : g.Stalls l closest)
      (hall : (g.heard.map (·.1)).Perm closest) :
    PutTells l counts g false (g.verdict counts .putFailed)
  /-- The deadline comes while some are waited for. -/
  | expires {closest waiting : List Peer} (hstalls : g.Stalls l closest) (hleft : waiting ≠ [])
      (hwaiting : (waiting ++ g.heard.map (·.1)).Perm closest) :
    PutTells l counts g true (g.verdict counts .timeout)

section

variable {localId target : NodeId} {known : Option Sequence} {k alpha : Nat} {seeds : List Peer}
  {g : PutLog} {late : Bool} {item : Item} {result : Except TransportError LookupStats}

theorem PutOutcome.tells
    (h : PutOutcome item (.ofSeeds localId target known k alpha seeds) g late result) :
    ∃ before more now,
      (Lookup.ofSeeds localId target known k alpha seeds).Stands g.past before more now ∧
        PutTells (.ofSeeds localId target known k alpha seeds) now.stats g late result := by
  cases h with
  | opens hm => exact ⟨_, _, _, .opens hm, .lapses rfl⟩
  | @reads g p hcourse _ learned hp =>
    have hrecounts := hcourse.recounts
    obtain ⟨asked, step, hrun, hlookup⟩ := hrecounts.run
    obtain ⟨⟨rest, hmail⟩, rfl⟩ := ItemPut.receive_ends_eq hp
    have hstands := Lookup.Stands.runs hrun (.asks (Nat.zero_le _))
    refine ⟨asked, [], step.lookup, hstands, ?_⟩
    rw [hlookup]
    cases hrecounts.phases with
    | searching hphase hlog hposted =>
      rw [hmail] at hphase
      cases hphase
      have hparting := hposted.head_stalled.1
      obtain ⟨hstalled, hdistinct⟩ := hrun.stalled_of_parting (hlookup ▸ hparting)
      rw [hlog] at hrun ⊢
      exact .completes ⟨rfl, ⟨asked, step, hrun, hstalled⟩, hdistinct, .refl _,
        fun e he => nomatch he⟩ (.refl _)
    | storing hphase =>
      rw [hmail] at hphase
      cases hphase
  | @hears g p hcourse peer ok hsent hnew _ learned hp =>
    have hrecounts := hcourse.recounts
    obtain ⟨asked, step, hrun, hlookup⟩ := hrecounts.run
    obtain ⟨waiting, closest, hphase, hmem, -, hhears⟩ := hrecounts.phases.of_sent hsent hnew
    obtain ⟨hstalls, hwaiting⟩ := hhears ok
    refine ⟨asked, [], step.lookup, .runs hrun (.asks (Nat.zero_le _)), ?_⟩
    rw [ItemPut.acknowledge_of_mem hphase hmem] at hp
    split at hp
    · rename_i hnone
      rw [List.isEmpty_iff.1 hnone, List.nil_append] at hwaiting
      cases hp
      have hverdict : PutTells _ step.lookup.stats _ _ _ := .completes hstalls hwaiting
      unfold PutLog.verdict PutLog.stats at hverdict
      rw [List.length_append, List.countP_append, ← hlookup] at hverdict
      rw [← hlookup]
      exact hverdict
    · cases hp
  | @expires g p hcourse ended reports more now hm =>
    have hrecounts := hcourse.recounts
    obtain ⟨asked, step, hrun, hlookup⟩ := hrecounts.run
    refine ⟨asked, more, now, .runs hrun (hlookup ▸ hm), ?_⟩
    cases hrecounts.phases with
    | searching hphase hlog hposted =>
      have hexpire : { p with lookup := now }.expire = .error (.timeout now.stats) := by
        unfold ItemPut.expire
        rw [hphase]
      rw [hexpire, hlog]
      exact .lapses rfl
    | @storing waiting closest hphase hparting hstalls hleft hwaiting =>
      have hexpire : { p with lookup := now }.expire = g.verdict now.stats .timeout := by
        unfold ItemPut.expire
        rw [hphase]
        rfl
      -- After the stall no query is outstanding, so none has ended.
      have hended : ended = [] := by
        cases hm with
        | asks => rfl
        | notes hq =>
          rw [Lookup.parting_of_isQuerying hq] at hparting
          cases hparting
      rw [hexpire, hended]
      exact .expires hstalls hleft hwaiting

end

/-- When the only query of a lookup brings nothing and its node keeps the item, the put succeeds. -/
theorem PutOutcome.of_lone {item : Item} {l : Lookup} {peer : Peer}
    (hq : l.begin.lookup.isQuerying peer.id = true)
    (hparting : (l.begin.lookup.answer peer.id (some ⟨none, []⟩)).lookup.parting = some [peer]) :
    ∃ stats, PutOutcome item l ⟨[(peer.id, some ⟨none, []⟩)], some [peer], [], [peer],
      [(peer, true)]⟩ false (.ok stats) := by
  have hopening : l.begin.events = [] := by
    have hevents : l.begin.events = [] ++ l.begin.lookup.farewell := Lookup.events_of_proceed l []
    rw [hevents, Lookup.farewell_eq, Lookup.parting_of_isQuerying hq]
    rfl
  have hclosing : (l.begin.lookup.answer peer.id (some ⟨none, []⟩)).events =
      [.stalled [peer]] := by
    rw [Lookup.events_of_answer hq, Lookup.farewell_eq, hparting]
    rfl
  have hbegins : PutCourse item l (.before []) ⟨item, l.begin.lookup, .searching []⟩ := by
    rw [← hopening]
    exact .begins rfl
  have hanswers := hbegins.answers (some ⟨none, []⟩) hq rfl
  rw [hclosing, List.nil_append] at hanswers
  have hturn : [peer] = [] ++ peer :: [] := rfl
  have hsends := (hanswers.stalls rfl).sends hturn
  exact ⟨_, .hears hsends List.mem_cons_self (fun e he => nomatch he)
    (ItemPut.acknowledge_last rfl)⟩

/-! ## 5. What was sent and what is answered -/

section

variable {l : Lookup} {counts : LookupStats} {g : PutLog} {late : Bool}
  {result : Except TransportError LookupStats} {closest : List Peer}

/-- When all nodes of the stall have answered, all have been sent the item. -/
theorem PutLog.Stalls.sent_perm (h : g.Stalls l closest)
    (hall : (g.heard.map (·.1)).Perm closest) : g.sent.Perm closest := by
  have hnodup : (g.heard.map (·.1)).Nodup :=
    hall.nodup_iff.2 (List.Nodup.of_map _ h.distinct)
  have hsub : g.heard.map (·.1) ⊆ g.sent := by
    intro q hq
    obtain ⟨e, he, rfl⟩ := List.mem_map.1 hq
    exact h.answered e he
  have hle := (List.subperm_of_subset hnodup hsub).length_le
  have hheard := hall.length_eq
  have hturns := h.turns.length_eq
  rw [List.length_append] at hturns
  have hunsent : g.unsent = [] := List.length_eq_zero_iff.1 (by omega)
  have hperm := h.turns
  rw [hunsent, List.nil_append] at hperm
  exact hperm

theorem PutLog.Stalls.sent_nodup (h : g.Stalls l closest) : (g.sent.map (·.id)).Nodup := by
  have hboth := (h.turns.map (·.id)).nodup_iff.2 h.distinct
  exact hboth.sublist ((List.sublist_append_right _ _).map _)

/-- Only the nodes of the stall are sent the item, each once. -/
theorem PutLog.Stalls.sends (h : g.Stalls l closest) (hall : late = false → g.sent.Perm closest) :
    (g.sent.map (·.id)).Nodup ∧ (g.closest = none → g.sent = []) ∧ ∀ nodes,
      g.closest = some nodes →
      (∃ asked step, LookupRun l g.past asked step ∧ .stalled nodes ∈ step.events) ∧
      g.sent ⊆ nodes ∧ (late = false → g.sent.Perm nodes) := by
  have hsub : g.sent ⊆ closest :=
    fun q hq => h.turns.mem_iff.1 (List.mem_append_right _ hq)
  refine ⟨h.sent_nodup, fun hnone => ?_, fun nodes hread => ?_⟩
  · rw [h.read] at hnone
    cases hnone
  · cases h.read.symm.trans hread
    exact ⟨h.run, hsub, hall⟩

/-- Nobody is sent the item before the stall, and then only its nodes are, each once; all of them if
    the deadline does not come. -/
theorem PutTells.sent (h : PutTells l counts g late result) : (g.sent.map (·.id)).Nodup ∧
    (g.closest = none → g.sent = []) ∧ ∀ closest, g.closest = some closest →
      (∃ asked step, LookupRun l g.past asked step ∧ .stalled closest ∈ step.events) ∧
      g.sent ⊆ closest ∧ (late = false → g.sent.Perm closest) := by
  cases h with
  | lapses hlog =>
    rw [hlog]
    exact ⟨List.nodup_nil, fun _ => rfl, fun closest hread => nomatch hread⟩
  | completes hstalls hall => exact hstalls.sends fun _ => hstalls.sent_perm hall
  | expires hstalls => exact hstalls.sends fun hlate => nomatch hlate

theorem PutLog.acknowledged_iff : g.Acknowledged ↔ 0 < g.heard.countP (·.2) := by
  rw [List.countP_pos_iff]
  constructor
  · rintro ⟨p, hp⟩
    exact ⟨_, hp, rfl⟩
  · rintro ⟨⟨p, ok⟩, hp, hok⟩
    obtain rfl : ok = true := hok
    exact ⟨p, hp⟩

theorem PutLog.verdict_of_acknowledged (h : g.Acknowledged) (error : LookupStats → TransportError) :
    g.verdict counts error = .ok (g.stats counts) :=
  if_pos (acknowledged_iff.1 h)

theorem PutLog.verdict_of_not_acknowledged (h : ¬g.Acknowledged)
    (error : LookupStats → TransportError) :
    g.verdict counts error = .error (error (g.stats counts)) :=
  if_neg (mt acknowledged_iff.2 h)

/-- A put succeeds with one acknowledgement. Without any it has failed if all have answered, else it
    has timed out. -/
theorem PutTells.ending (h : PutTells l counts g late result) :
    (g.Acknowledged ∧ g.closest.isSome = true ∧ result = .ok (g.stats counts)) ∨
      (¬g.Acknowledged ∧ g.Finished ∧ result = .error (.putFailed (g.stats counts))) ∨
      (¬g.Acknowledged ∧ ¬g.Finished ∧ result = .error (.timeout (g.stats counts))) := by
  by_cases hacknowledged : g.Acknowledged
  · refine .inl ⟨hacknowledged, ?_⟩
    cases h with
    | lapses hlog =>
      obtain ⟨p, hp⟩ := hacknowledged
      rw [hlog] at hp
      cases hp
    | completes hstalls =>
      exact ⟨hstalls.read ▸ rfl, PutLog.verdict_of_acknowledged hacknowledged _⟩
    | expires hstalls =>
      exact ⟨hstalls.read ▸ rfl, PutLog.verdict_of_acknowledged hacknowledged _⟩
  · refine .inr ?_
    cases h with
    | lapses hlog =>
      refine .inr ⟨hacknowledged, ?_, ?_⟩
      · rintro ⟨closest, hread, -⟩
        rw [hlog] at hread
        cases hread
      · rw [hlog]
        rfl
    | completes hstalls hall =>
      exact .inl ⟨hacknowledged, ⟨_, hstalls.read, hall⟩,
        PutLog.verdict_of_not_acknowledged hacknowledged _⟩
    | expires hstalls hleft hwaiting =>
      refine .inr ⟨hacknowledged, ?_, PutLog.verdict_of_not_acknowledged hacknowledged _⟩
      rintro ⟨closest, hread, hall⟩
      cases hstalls.read.symm.trans hread
      have hlen := (hwaiting.trans hall.symm).length_eq
      rw [List.length_append] at hlen
      exact hleft (List.length_eq_zero_iff.1 (by omega))

end

/-! ## 6. Clients -/

/-- The counts that an error carries. -/
def TransportError.stats? : TransportError → Option LookupStats
  | .notFound stats => some stats
  | .timeout stats => some stats
  | .putFailed stats => some stats
  | .noNodes => none
  | .invalidId _ => none

/-- The counts that a result carries. -/
def countsOf : Except TransportError LookupStats → Option LookupStats
  | .ok stats => some stats
  | .error e => e.stats?

/-- How a client that puts an item fares: there is no node to ask, or a put ends. -/
inductive DhtConfig.Puts (c : DhtConfig) (localId : NodeId) (table : RoutingTable) (item : Item) :
    PutLog → Bool → Except TransportError LookupStats → Prop where
  | refuses (hseeds : c.seeds table item.target = []) :
    Puts c localId table item (.before []) false (.error .noNodes)
  | puts (hseeds : c.seeds table item.target ≠ []) {g : PutLog} {late : Bool}
      {result : Except TransportError LookupStats}
      (h : PutOutcome item (c.lookup localId item.target none (c.seeds table item.target)) g late
        result) : Puts c localId table item g late result

theorem DhtConfig.Puts.responses_le {c : DhtConfig} {localId : NodeId} {table : RoutingTable}
    {item : Item} {g : PutLog} {late : Bool} {result : Except TransportError LookupStats}
    (h : c.Puts localId table item g late result) {stats : LookupStats}
    (hstats : countsOf result = some stats) : stats.responses ≤ stats.tried := by
  cases h with
  | refuses => cases hstats
  | puts hseeds h =>
    obtain ⟨before, more, now, hstands, htells⟩ := h.tells
    have hlookup := hstands.accounts.1.tallies.responses_le
    have hheard : g.heard.countP (·.2) ≤ g.heard.length := List.countP_le_length
    have hall : (g.stats now.stats).responses ≤ (g.stats now.stats).tried :=
      Nat.add_le_add hlookup hheard
    rcases htells.ending with ⟨-, -, rfl⟩ | ⟨-, -, rfl⟩ | ⟨-, -, rfl⟩
    all_goals
      cases hstats
      exact hall

theorem DhtConfig.Finds.responses_le {c : DhtConfig} {localId target : NodeId}
    {table : RoutingTable} {known : Option Sequence} {past : List QueryEnd}
    {reports : List LookupEvent} {late : Bool}
    {result : Except TransportError (Item × LookupStats)}
    (h : c.Finds localId table target known past reports late result) {stats : LookupStats}
    (hstats : countsOf (result.map (·.2)) = some stats) : stats.responses ≤ stats.tried := by
  cases h with
  | refuses => cases hstats
  | searches hseeds h =>
    obtain ⟨before, more, now, hstands, htells⟩ := h.tells
    have hlookup := hstands.accounts.1.tallies.responses_le
    generalize SearchEnd.result _ = result at htells hstats
    cases htells
    all_goals
      cases hstats
      exact hlookup

end SignedRecords
