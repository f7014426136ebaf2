import SignedRecords.Dht.Client.Search
import SignedRecords.Proofs.ItemRuns
import SignedRecords.Proofs.QueryCounts

/-!
# How a search ends

The replies to a lookup bring items in any order, and the search reads them in that order while the
lookup goes on. Whatever has been read so far, the best item is the newest of it, the last one if
several are equally new. So when the stall has been read, the answer is the newest of all that any
reply has brought; an item without an owner is the answer as soon as it is read; and if the deadline
comes first, the search has timed out.

Main statement: `search_answers_newest`.
-/

namespace SignedRecords

/-! ## 1. What replies have brought -/

/-- The items that the replies to a lookup have brought, in the order of the replies; items that do
    not hold at the target are left out. -/
def candidatesIn (target : NodeId) : List QueryEnd → List Item
  | [] => []
  | (_, reply) :: past => candidatesIn target past ++ GetReply.brought target reply

theorem GetReply.mem_brought {target : NodeId} {reply : Option GetReply} {item : Item} :
    item ∈ GetReply.brought target reply ↔
      item.holdsAt target = true ∧ ∃ r, reply = some r ∧ r.item = some item := by
  unfold brought
  rw [List.mem_filter, Option.mem_toList, Option.bind_eq_some_iff, and_comm]

theorem GetReply.brought_of_holdsAt {target : NodeId} {reply : GetReply} {item : Item}
    (hitem : reply.item = some item) (h : item.holdsAt target = true) :
    GetReply.brought target (some reply) = [item] := by
  simp [brought, hitem, h]

theorem mem_candidatesIn {target : NodeId} {past : List QueryEnd} {item : Item} :
    item ∈ candidatesIn target past ↔ item.holdsAt target = true ∧
      ∃ id reply, (id, some reply) ∈ past ∧ reply.item = some item := by
  induction past with
  | nil => simp [candidatesIn]
  | cons e rest ih =>
    obtain ⟨id, reply⟩ := e
    rw [candidatesIn, List.mem_append, ih, GetReply.mem_brought, ← and_or_left]
    refine and_congr_right fun _ => ⟨?_, ?_⟩
    · rintro (⟨id', r, hr, hitem⟩ | ⟨r, rfl, hitem⟩)
      · exact ⟨id', r, List.mem_cons_of_mem _ hr, hitem⟩
      · exact ⟨id, r, List.mem_cons_self, hitem⟩
    · rintro ⟨id', r, hr, hitem⟩
      rcases List.mem_cons.1 hr with heq | hr
      · cases heq
        exact .inr ⟨r, rfl, hitem⟩
      · exact .inl ⟨id', r, hr, hitem⟩

/-- An item that is at least as new as all before it in a list and newer than all after it. -/
def Newest (item : Item) (items : List Item) : Prop :=
  ∃ earlier later n, items = earlier ++ item :: later ∧ item.seq = some n ∧
    (∀ other ∈ earlier, ∃ m, other.seq = some m ∧ m ≤ n) ∧
    ∀ other ∈ later, ∃ m, other.seq = some m ∧ m < n

theorem Newest.mem {item : Item} {items : List Item} (h : Newest item items) : item ∈ items := by
  obtain ⟨earlier, later, n, rfl, -⟩ := h
  exact List.mem_append_right _ List.mem_cons_self

/-- The newest of some items, if there are any. -/
def BestOf : Option Item → List Item → Prop
  | none, items => items = []
  | some item, items => Newest item items

/-- One more item is compared. -/
theorem BestOf.next {best : Option Item} {items : List Item} (h : BestOf best items)
    {item : Item} {n : Sequence} (hseq : item.seq = some n) :
    BestOf (if Search.improves item best then some item else best) (items ++ [item]) := by
  cases best with
  | none =>
    obtain rfl : items = [] := h
    exact ⟨[], [], n, rfl, hseq, fun other hmem => (nomatch hmem), fun other hmem => nomatch hmem⟩
  | some best =>
    obtain ⟨earlier, later, m, hitems, hm, hearlier, hlater⟩ := h
    cases himproves : Search.improves item (some best) with
    | true =>
      obtain ⟨n', hn', hle⟩ := Search.improves_eq_true hm himproves
      obtain rfl : n' = n := Option.some.inj (hn'.symm.trans hseq)
      refine ⟨items, [], n', rfl, hseq, fun other hmem => ?_, fun other hmem => nomatch hmem⟩
      rw [hitems] at hmem
      rcases List.mem_append.1 hmem with hmem | hmem
      · obtain ⟨q, hq, hqm⟩ := hearlier other hmem
        exact ⟨q, hq, Int64.le_trans hqm hle⟩
      · rcases List.mem_cons.1 hmem with rfl | hmem
        · exact ⟨m, hm, hle⟩
        · obtain ⟨q, hq, hqm⟩ := hlater other hmem
          exact ⟨q, hq, Int64.le_trans (Int64.le_of_lt hqm) hle⟩
    | false =>
      obtain ⟨m', hm', hlt⟩ := Search.improves_eq_false hseq himproves
      obtain rfl : m' = m := Option.some.inj (hm'.symm.trans hm)
      refine ⟨earlier, later ++ [item], m', ?_, hm, hearlier, fun other hmem => ?_⟩
      · rw [hitems, List.append_assoc, List.cons_append]
      · rcases List.mem_append.1 hmem with hmem | hmem
        · exact hlater other hmem
        · rw [List.mem_singleton.1 hmem]
          exact ⟨n, hseq, hlt⟩

/-! ## 2. What waits to be read -/

/-- The nodes that a lookup hands over, if it is at its end. -/
def Lookup.parting (l : Lookup) : Option (List Peer) :=
  if l.outstanding = 0 then some l.closest else none

theorem Lookup.farewell_eq (l : Lookup) : l.farewell = l.parting.toList.map .stalled := by
  unfold farewell parting
  split <;> rfl

theorem Lookup.parting_eq_some {l : Lookup} {closest : List Peer} :
    l.parting = some closest ↔ l.outstanding = 0 ∧ closest = l.closest := by
  unfold parting
  split
  · rename_i hzero
    rw [Option.some_inj, and_iff_right hzero, eq_comm]
  · rename_i hopen
    exact ⟨fun h => (nomatch h), fun h => absurd h.1 hopen⟩

theorem Lookup.parting_of_isQuerying {l : Lookup} {id : NodeId} (hq : l.isQuerying id = true) :
    l.parting = none := by
  unfold parting
  rw [if_neg]
  intro hzero
  obtain ⟨c, hc, hquery⟩ := List.any_eq_true.1 hq
  rw [Bool.and_eq_true, beq_iff_eq, beq_iff_eq] at hquery
  exact outstanding_eq_zero.1 hzero c hc hquery.2

/-- After some items have been read, the other items that replies have brought wait to be read, and
    then maybe the end of the lookup. -/
def Posted (target : NodeId) (past : List QueryEnd) (read : List Item) (last : Option (List Peer))
    (mailbox : List LookupEvent) : Prop :=
  ∃ rest, candidatesIn target past = read ++ rest ∧
    mailbox = rest.map .candidate ++ last.toList.map .stalled

namespace Posted

variable {target : NodeId} {past : List QueryEnd} {read : List Item} {last : Option (List Peer)}
  {mailbox : List LookupEvent}

theorem begin (l : Lookup) : Posted target [] [] l.begin.lookup.parting l.begin.events := by
  refine ⟨[], rfl, ?_⟩
  rw [← Lookup.farewell_eq]
  exact Lookup.events_of_proceed l []

/-- A query ends; what it brings comes last. -/
theorem brings (h : Posted target past read none mailbox) (id : NodeId)
    (reply : Option GetReply) : Posted target ((id, reply) :: past) read none
      (mailbox ++ (GetReply.brought target reply).map .candidate) := by
  obtain ⟨rest, hcandidates, hmail⟩ := h
  refine ⟨rest ++ GetReply.brought target reply, ?_, ?_⟩
  · rw [candidatesIn, hcandidates, List.append_assoc]
  · rw [hmail, List.map_append]
    simp

theorem answer {l : Lookup} (htarget : l.target = target)
    (h : Posted target past read l.parting mailbox) {id : NodeId} (hq : l.isQuerying id = true)
    (reply : Option GetReply) : Posted target ((id, reply) :: past) read
      (l.answer id reply).lookup.parting (mailbox ++ (l.answer id reply).events) := by
  rw [Lookup.parting_of_isQuerying hq] at h
  obtain ⟨rest, hcandidates, hmail⟩ := h.brings id reply
  refine ⟨rest, hcandidates, ?_⟩
  rw [Lookup.events_of_answer hq, htarget, ← List.append_assoc, hmail, Lookup.farewell_eq]
  simp

/-- What can be read while the lookup makes a step. -/
theorem midway {l : Lookup} (htarget : l.target = target)
    (h : Posted target past read l.parting mailbox) {ended : List QueryEnd}
    {reports : List LookupEvent} {more : List Peer} {now : Lookup}
    (hm : l.Midway ended reports more now) :
    ∃ last, Posted target (ended ++ past) read last (mailbox ++ reports) ∧
      ∀ closest, last = some closest → ended = [] ∧ l.parting = some closest := by
  cases hm with
  | asks hslots =>
    rw [List.append_nil]
    exact ⟨l.parting, h, fun closest heq => ⟨rfl, heq⟩⟩
  | notes hq reply hslots =>
    rw [Lookup.parting_of_isQuerying hq] at h
    rw [htarget]
    exact ⟨none, h.brings _ reply, fun closest heq => nomatch heq⟩

/-- The next report is an item. -/
theorem head_candidate {item : Item} {tail : List LookupEvent}
    (h : Posted target past read last (.candidate item :: tail)) :
    Posted target past (read ++ [item]) last tail ∧ item.holdsAt target = true ∧
      ∃ later, candidatesIn target past = read ++ item :: later := by
  obtain ⟨rest, hcandidates, hmail⟩ := h
  cases rest with
  | nil => cases last <;> cases hmail
  | cons next rest =>
    cases hmail
    refine ⟨⟨rest, ?_, rfl⟩, ?_, rest, hcandidates⟩
    · rw [hcandidates, List.append_assoc, List.singleton_append]
    · have hmem : item ∈ candidatesIn target past :=
        hcandidates ▸ List.mem_append_right _ List.mem_cons_self
      exact (mem_candidatesIn.1 hmem).1

/-- The next report is the end of the lookup, so all items have been read. -/
theorem head_stalled {closest : List Peer} {tail : List LookupEvent}
    (h : Posted target past read last (.stalled closest :: tail)) :
    last = some closest ∧ candidatesIn target past = read := by
  obtain ⟨rest, hcandidates, hmail⟩ := h
  cases rest with
  | cons next rest => cases hmail
  | nil =>
    cases last with
    | none => cases hmail
    | some other =>
      cases hmail
      exact ⟨rfl, hcandidates.trans (List.append_nil _)⟩

end Posted

/-! ## 3. The course of a search -/

/-- A search that has begun and has not ended, with the queries that have ended, the last one first,
    and the items that it has read. -/
inductive SearchCourse (l : Lookup) : List QueryEnd → List Item → Search → Prop where
  | begins : SearchCourse l [] [] (Search.ofLookup l).begin.1
  /-- An outstanding query ends. -/
  | answers {past : List QueryEnd} {read : List Item} {s : Search} (h : SearchCourse l past read s)
      {id : NodeId} (reply : Option GetReply) (hq : s.lookup.isQuerying id = true) :
    SearchCourse l ((id, reply) :: past) read (s.answer id reply).1
  /-- The search reads an item and goes on. -/
  | reads {past : List QueryEnd} {read : List Item} {s s' : Search} (h : SearchCourse l past read s)
      {item : Item} {rest : List LookupEvent} (hmail : s.mailbox = .candidate item :: rest)
      (hs : s.receive = .inl s') : SearchCourse l past (read ++ [item]) s'

/-- A search whose lookup is making a step. -/
def Search.midway (s : Search) (reports : List LookupEvent) (now : Lookup) : Search :=
  { s with lookup := now, mailbox := s.mailbox ++ reports }

/-- The end of a search, with the queries that have ended, the reports that it has read, and whether
    the deadline has come. -/
inductive SearchOutcome (l : Lookup) :
    List QueryEnd → List LookupEvent → Bool → SearchEnd → Prop where
  /-- The deadline comes while the first queries are started. -/
  | opens {ended : List QueryEnd} {reports : List LookupEvent} {more : List Peer} {now : Lookup}
      (hm : l.Midway ended reports more now) :
    SearchOutcome l ended [] true ((Search.ofLookup l).midway reports now).expire
  /-- The search reads a report that ends it. -/
  | reads {past : List QueryEnd} {read : List Item} {s : Search} (h : SearchCourse l past read s)
      {ended : List QueryEnd} {reports : List LookupEvent} {more : List Peer} {now : Lookup}
      (hm : s.lookup.Midway ended reports more now) {report : LookupEvent}
      {rest : List LookupEvent} (hmail : (s.midway reports now).mailbox = report :: rest)
      {e : SearchEnd} (he : (s.midway reports now).receive = .inr e) :
    SearchOutcome l (ended ++ past) (read.map .candidate ++ [report]) false e
  | expires {past : List QueryEnd} {read : List Item} {s : Search} (h : SearchCourse l past read s)
      {ended : List QueryEnd} {reports : List LookupEvent} {more : List Peer} {now : Lookup}
      (hm : s.lookup.Midway ended reports more now) :
    SearchOutcome l (ended ++ past) (read.map .candidate) true (s.midway reports now).expire

/-- What is true of a search all along its course. -/
structure Search.Recounts (s : Search) (l : Lookup) (past : List QueryEnd) (read : List Item) :
    Prop where
  lookup : ∃ asked step, LookupRun l past asked step ∧ s.lookup = step.lookup
  aims : s.lookup.target = l.target
  posted : Posted l.target past read s.lookup.parting s.mailbox
  owned : ∀ item ∈ read, item.isMutable = true
  best : BestOf s.best read

variable {l : Lookup} {past : List QueryEnd} {read : List Item} {s : Search}

theorem Item.seq_of_holdsAt {item : Item} {target : NodeId} (hm : item.isMutable = true)
    (h : item.holdsAt target = true) : ∃ n, item.seq = some n :=
  Item.seq_of_verify hm (Bool.and_eq_true_iff.1 h).2

/-- A search that goes on after an item has found an owner. -/
theorem Search.isMutable_of_receive {s s' : Search} {item : Item} {rest : List LookupEvent}
    (hmail : s.mailbox = .candidate item :: rest) (hs : s.receive = .inl s') :
    item.isMutable = true := by
  cases hm : item.isMutable with
  | true => rfl
  | false =>
    unfold receive at hs
    rw [hmail] at hs
    dsimp only at hs
    rw [hm] at hs
    cases hs

theorem SearchCourse.recounts (h : SearchCourse l past read s) : s.Recounts l past read := by
  induction h with
  | begins =>
    exact ⟨⟨_, _, .begins, rfl⟩, Lookup.proceed_target _ _, Posted.begin l,
      fun item hmem => (nomatch hmem), rfl⟩
  | answers _ reply hq ih =>
    obtain ⟨asked, step, hrun, hlookup⟩ := ih.lookup
    refine ⟨⟨_, _, hrun.ends reply (hlookup ▸ hq), ?_⟩, ?_, ?_, ih.owned, ih.best⟩
    · rw [← hlookup]
      rfl
    · exact (Lookup.answer_target _ _ _).trans ih.aims
    · exact ih.posted.answer ih.aims hq reply
  | reads _ hmail hs ih =>
    have howner := Search.isMutable_of_receive hmail hs
    have hposted := ih.posted
    rw [hmail] at hposted
    obtain ⟨hrest, hholds, -⟩ := hposted.head_candidate
    obtain ⟨n, hseq⟩ := Item.seq_of_holdsAt howner hholds
    rw [Search.receive_candidate hmail howner] at hs
    cases hs
    refine ⟨ih.lookup, ih.aims, hrest, fun other hmem => ?_, ih.best.next hseq⟩
    rcases List.mem_append.1 hmem with hmem | hmem
    · exact ih.owned other hmem
    · rw [List.mem_singleton.1 hmem]
      exact howner

/-! ## 4. The end of a search -/

/-- The four ways in which a search ends. -/
inductive SearchTells (target : NodeId) (past : List QueryEnd) (stats : LookupStats) :
    List LookupEvent → Bool → Except TransportError (Item × LookupStats) → Prop where
  /-- An item without an owner is read, the first one. -/
  | seizes {read later : List Item} {item : Item}
      (hcandidates : candidatesIn target past = read ++ item :: later)
      (howned : ∀ other ∈ read, other.isMutable = true) (hplain : item.isMutable = false) :
    SearchTells target past stats ((read ++ [item]).map .candidate) false (.ok (item, stats))
  /-- The stall is read after all items, and all had owners. -/
  | finds {item : Item} {closest : List Peer}
      (howned : ∀ other ∈ candidatesIn target past, other.isMutable = true)
      (hnewest : Newest item (candidatesIn target past)) :
    SearchTells target past stats ((candidatesIn target past).map .candidate ++ [.stalled closest])
      false (.ok (item, stats))
  /-- The stall is read, and there was no item. -/
  | misses {closest : List Peer} (hnone : candidatesIn target past = []) :
    SearchTells target past stats [.stalled closest] false (.error (.notFound stats))
  /-- The deadline comes first. -/
  | expires {read later : List Item} (hcandidates : candidatesIn target past = read ++ later)
      (howned : ∀ other ∈ read, other.isMutable = true) :
    SearchTells target past stats (read.map .candidate) true (.error (.timeout stats))

theorem Search.receive_plain {s : Search} {item : Item} {rest : List LookupEvent}
    (hmail : s.mailbox = .candidate item :: rest) (hplain : item.isMutable = false) :
    s.receive = .inr ⟨.ok (item, s.lookup.stats), []⟩ := by
  unfold receive
  rw [hmail]
  dsimp only
  rw [hplain]
  rfl

theorem SearchOutcome.tells {reports : List LookupEvent} {late : Bool} {e : SearchEnd}
    (h : SearchOutcome l past reports late e) : ∃ before more now, l.Stands past before more now ∧
      SearchTells l.target past now.stats reports late e.result := by
  cases h with
  | @opens _ posted more now hm =>
    have hnone : ∀ other ∈ ([] : List Item), other.isMutable = true :=
      fun other hmem => nomatch hmem
    exact ⟨_, _, _, .opens hm, .expires rfl hnone⟩
  | @reads past read s hcourse ended posted more now hm report rest hmail _ he =>
    have hrecounts := hcourse.recounts
    obtain ⟨asked, step, hrun, hlookup⟩ := hrecounts.lookup
    obtain ⟨last, hposted, hlast⟩ := hrecounts.posted.midway hrecounts.aims hm
    have hstands : l.Stands (ended ++ past) asked more now := .runs hrun (hlookup ▸ hm)
    refine ⟨asked, more, now, hstands, ?_⟩
    rw [show s.mailbox ++ posted = report :: rest from hmail] at hposted
    cases report with
    | candidate item =>
      obtain ⟨-, -, later, hcandidates⟩ := hposted.head_candidate
      cases howner : item.isMutable with
      | true =>
        rw [Search.receive_candidate hmail howner] at he
        cases he
      | false =>
        rw [Search.receive_plain hmail howner] at he
        cases he
        show SearchTells _ _ _ (read.map .candidate ++ [item].map .candidate) _ _
        rw [← List.map_append]
        exact .seizes hcandidates hrecounts.owned howner
    | stalled closest =>
      obtain ⟨-, hall⟩ := hposted.head_stalled
      have hbest := hrecounts.best
      have howned := hrecounts.owned
      rw [Search.receive_stalled hmail] at he
      cases he
      rw [← hall] at hbest howned ⊢
      show SearchTells _ _ _ _ _ (s.midway posted now).result
      have hkept : (s.midway posted now).best = s.best := rfl
      unfold Search.result
      rw [hkept]
      cases hfound : s.best with
      | none =>
        rw [hfound] at hbest
        have hnone : candidatesIn l.target (ended ++ past) = [] := hbest
        rw [hnone]
        exact .misses hnone
      | some item =>
        rw [hfound] at hbest
        exact .finds howned hbest
  | @expires past read s hcourse ended posted more now hm =>
    have hrecounts := hcourse.recounts
    obtain ⟨asked, step, hrun, hlookup⟩ := hrecounts.lookup
    obtain ⟨last, ⟨later, hcandidates, -⟩, -⟩ := hrecounts.posted.midway hrecounts.aims hm
    exact ⟨_, _, _, .runs hrun (hlookup ▸ hm), .expires hcandidates hrecounts.owned⟩

section

variable {target : NodeId} {stats : LookupStats} {reports : List LookupEvent} {late : Bool}
  {result : Except TransportError (Item × LookupStats)}

theorem candidate_mem_map {item : Item} {items : List Item} :
    LookupEvent.candidate item ∈ items.map .candidate ↔ item ∈ items := by
  simp

theorem SearchTells.of_ok (h : SearchTells target past stats reports late result) {item : Item}
    {counts : LookupStats} (hok : result = .ok (item, counts)) :
    item.holdsAt target = true ∧ (item.isMutable = true → Newest item (candidatesIn target past) ∧
      ∀ other, .candidate other ∈ reports → other.isMutable = true) := by
  cases h with
  | seizes hcandidates howned hplain =>
    cases hok
    have hmem : item ∈ candidatesIn target past :=
      hcandidates ▸ List.mem_append_right _ List.mem_cons_self
    refine ⟨(mem_candidatesIn.1 hmem).1, fun howner => ?_⟩
    rw [hplain] at howner
    cases howner
  | finds howned hnewest =>
    cases hok
    refine ⟨(mem_candidatesIn.1 hnewest.mem).1, fun _ => ⟨hnewest, fun other hmem => ?_⟩⟩
    rcases List.mem_append.1 hmem with hmem | hmem
    · exact howned other (candidate_mem_map.1 hmem)
    · cases List.mem_singleton.1 hmem
  | misses => cases hok
  | expires => cases hok

/-- An item without an owner is the last report that is read, and the first such item. -/
theorem SearchTells.of_plain (h : SearchTells target past stats reports late result) {item : Item}
    {before after : List LookupEvent} (hsplit : reports = before ++ .candidate item :: after)
    (hplain : item.isMutable = false) : result = .ok (item, stats) ∧
      ∀ other, .candidate other ∈ before → other.isMutable = true := by
  have hread : .candidate item ∈ reports := hsplit ▸ List.mem_append_right _ List.mem_cons_self
  have habsurd : ∀ {items : List Item}, (∀ other ∈ items, other.isMutable = true) →
      item ∉ items := by
    intro items howned hmem
    rw [howned item hmem] at hplain
    cases hplain
  cases h with
  | @seizes read later last hcandidates howned hlast =>
    constructor
    · rcases List.mem_append.1 (candidate_mem_map.1 hread) with hmem | hmem
      · exact absurd hmem (habsurd howned)
      · rw [List.mem_singleton.1 hmem]
    · intro other hmem
      have hlasts := congrArg List.dropLast hsplit
      rw [List.map_append, List.map_singleton, List.dropLast_concat,
        List.dropLast_append_of_ne_nil (List.cons_ne_nil _ _)] at hlasts
      exact howned other (candidate_mem_map.1 (hlasts ▸ List.mem_append_left _ hmem))
  | finds howned hnewest =>
    rcases List.mem_append.1 hread with hmem | hmem
    · exact absurd (candidate_mem_map.1 hmem) (habsurd howned)
    · cases List.mem_singleton.1 hmem
  | misses => cases List.mem_singleton.1 hread
  | expires hcandidates howned => exact absurd (candidate_mem_map.1 hread) (habsurd howned)

theorem SearchTells.of_notFound (h : SearchTells target past stats reports late result)
    {counts : LookupStats} (hmissing : result = .error (.notFound counts)) :
    candidatesIn target past = [] := by
  cases h with
  | misses hnone => exact hnone
  | seizes => cases hmissing
  | finds => cases hmissing
  | expires => cases hmissing

theorem SearchTells.of_timeout (h : SearchTells target past stats reports late result)
    {counts : LookupStats} (htimeout : result = .error (.timeout counts)) :
    late = true ∧ ∀ closest, .stalled closest ∉ reports := by
  cases h with
  | expires => exact ⟨rfl, fun closest hmem => by simp at hmem⟩
  | seizes => cases htimeout
  | finds => cases htimeout
  | misses => cases htimeout

end

/-- When the only query of a lookup brings an item with an owner, this item is the answer. -/
theorem SearchOutcome.of_lone {id : NodeId} {reply : GetReply} {item : Item}
    (hq : l.begin.lookup.isQuerying id = true) (hitem : reply.item = some item)
    (howner : item.isMutable = true) (hholds : item.holdsAt l.target = true)
    (hdone : (l.begin.lookup.answer id (some reply)).lookup.outstanding = 0) :
    ∃ reports e, SearchOutcome l [(id, some reply)] reports false e ∧
      e.result = .ok (item, (l.begin.lookup.answer id (some reply)).lookup.stats) := by
  have hcourse := SearchCourse.begins.answers (l := l) (some reply) hq
  have hparting := Lookup.parting_eq_some.2 ⟨hdone, rfl⟩
  obtain ⟨rest, hrest, hmail⟩ := hcourse.recounts.posted
  have hlookup : ((Search.ofLookup l).begin.1.answer id (some reply)).1.lookup =
    (l.begin.lookup.answer id (some reply)).lookup := rfl
  rw [hlookup, hparting] at hmail
  rw [candidatesIn, GetReply.brought_of_holdsAt hitem hholds] at hrest
  cases hrest
  have hnext := hcourse.reads hmail (Search.receive_candidate hmail howner)
  exact ⟨_, _, .reads hnext (.asks (Nat.zero_le _)) rfl (Search.receive_stalled rfl), rfl⟩

/-! ## 5. Clients -/

/-- How a client that looks for the item of a target fares: there is no node to ask, or a search
    ends. -/
inductive DhtConfig.Finds (c : DhtConfig) (localId : NodeId) (table : RoutingTable)
    (target : NodeId) (known : Option Sequence) : List QueryEnd → List LookupEvent → Bool →
      Except TransportError (Item × LookupStats) → Prop where
  | refuses (hseeds : c.seeds table target = []) :
    Finds c localId table target known [] [] false (.error .noNodes)
  | searches (hseeds : c.seeds table target ≠ []) {past : List QueryEnd}
      {reports : List LookupEvent} {late : Bool} {e : SearchEnd}
      (h : SearchOutcome (c.lookup localId target known (c.seeds table target)) past reports late
        e) : Finds c localId table target known past reports late e.result

theorem DhtConfig.seeds_of_one {c : DhtConfig} (hwide : max c.k c.alpha ≠ 0) {table : RoutingTable}
    {peer : Peer} (hnodes : table.nodes = [peer]) (target : NodeId) :
    c.seeds table target = [peer] := by
  unfold seeds RoutingTable.nearest RoutingTable.nearestOf
  rw [hnodes, List.mergeSort_singleton, List.take_of_length_le]
  exact Nat.pos_of_ne_zero hwide

theorem holdsAt_neutralRecord {value : Bytes} {sequence : Sequence}
    (hvalue : value.length ≤ maxValueSize) : (neutralRecord value sequence).item.holdsAt
      (neutralRecord value sequence).item.target = true := by
  rw [Item.holdsAt, beq_self_eq_true, Bool.true_and]
  exact (if_neg (Nat.not_lt.2 hvalue)).trans (neutral_signature_holds [] sequence value)

/-- Whatever the nodes answer, in whatever order, and whenever the search reads its reports: an item
    that it answers holds at the target. If that item has an owner, it is the newest of all items
    that any reply has brought and that hold at the target, the last one to arrive if several are
    equally new, and all that were read have owners. If an item without an owner has been read, the
    first one is the answer. The search says that there is nothing only if no reply has brought
    anything that holds, and it times out only if the deadline has come before the stall was
    read. -/
theorem search_answers_newest (c : DhtConfig) (localId target : NodeId) (table : RoutingTable)
    (known : Option Sequence) (past : List QueryEnd) (reports : List LookupEvent) (late : Bool)
    (result : Except TransportError (Item × LookupStats))
    (h : c.Finds localId table target known past reports late result) :
    (∀ item stats, result = .ok (item, stats) → item.holdsAt target = true ∧
      (item.isMutable = true → Newest item (candidatesIn target past) ∧
        ∀ other, .candidate other ∈ reports → other.isMutable = true)) ∧
    (∀ before item after, reports = before ++ .candidate item :: after →
      item.isMutable = false → (∃ stats, result = .ok (item, stats)) ∧
        ∀ other, .candidate other ∈ before → other.isMutable = true) ∧
    (∀ stats, result = .error (.notFound stats) → ∀ id reply item, (id, some reply) ∈ past →
      reply.item = some item → item.holdsAt target = false) ∧
    (∀ stats, result = .error (.timeout stats) →
      late = true ∧ ∀ closest, .stalled closest ∉ reports) := by
  cases h with
  | refuses => simp
  | searches hseeds h =>
    obtain ⟨before, more, now, -, htells⟩ := h.tells
    have htarget : (c.lookup localId target known (c.seeds table target)).target = target := rfl
    rw [htarget] at htells
    refine ⟨fun item stats hok => htells.of_ok hok, fun read item after hsplit hplain => ?_,
      fun stats hmissing id reply item hpast hitem => ?_,
      fun stats hlate => htells.of_timeout hlate⟩
    · obtain ⟨hok, hfirst⟩ := htells.of_plain hsplit hplain
      exact ⟨⟨_, hok⟩, hfirst⟩
    · have hnone := htells.of_notFound hmissing
      rw [← Bool.not_eq_true]
      intro hholds
      have hmem := mem_candidatesIn.2 ⟨hholds, id, reply, hpast, hitem⟩
      rw [hnone] at hmem
      cases hmem

/-- The only node of a table answers with an item and names the asking node. -/
theorem search_answers_newest_of_one :
    ∃ (c : DhtConfig) (target : NodeId) (table : RoutingTable) (past : List QueryEnd)
      (reports : List LookupEvent) (late : Bool)
      (result : Except TransportError (Item × LookupStats)),
      c.Finds 5 table target none past reports late result ∧
        result = .ok ((neutralRecord [2] 3).item, ⟨1, 1⟩) ∧
        ((∀ item stats, result = .ok (item, stats) → item.holdsAt target = true ∧
          (item.isMutable = true → Newest item (candidatesIn target past) ∧
            ∀ other, .candidate other ∈ reports → other.isMutable = true)) ∧
        (∀ before item after, reports = before ++ .candidate item :: after →
          item.isMutable = false → (∃ stats, result = .ok (item, stats)) ∧
            ∀ other, .candidate other ∈ before → other.isMutable = true) ∧
        (∀ stats, result = .error (.notFound stats) → ∀ id reply item, (id, some reply) ∈ past →
          reply.item = some item → item.holdsAt target = false) ∧
        (∀ stats, result = .error (.timeout stats) →
          late = true ∧ ∀ closest, .stalled closest ∉ reports)) := by
  let node : Peer := ⟨1, .v4 (.zero 4) 4, default⟩
  let item : Item := (neutralRecord [2] 3).item
  let reply : GetReply := ⟨some item, [⟨5, node.addr, default⟩]⟩
  let table : RoutingTable := ((RoutingTable.empty 5 8 900000).update node default).1
  let l : Lookup := DhtConfig.standard.lookup 5 item.target none [node]
  have hseeds : DhtConfig.standard.seeds table item.target = [node] :=
    DhtConfig.seeds_of_one (by decide) (by decide +kernel) _
  have hasked : l.begin.lookup.isQuerying 1 = true := by decide +kernel
  have hitem : reply.item = some item := rfl
  obtain ⟨reports, e, hends, hresult⟩ := SearchOutcome.of_lone (l := l) hasked hitem rfl
    (holdsAt_neutralRecord (by decide)) (by decide +kernel)
  have hstats : (l.begin.lookup.answer 1 (some reply)).lookup.stats = ⟨1, 1⟩ := by decide +kernel
  rw [hstats] at hresult
  have hfinds : DhtConfig.standard.Finds 5 table item.target none [(1, some reply)] reports false
      e.result := by
    refine .searches ?_ ?_
    · rw [hseeds]
      exact List.cons_ne_nil _ _
    · rw [hseeds]
      exact hends
  exact ⟨_, _, table, _, _, _, _, hfinds, hresult,
    search_answers_newest _ 5 _ table none _ _ _ _ hfinds⟩

end SignedRecords
