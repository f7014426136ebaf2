import SignedRecords.Dht.Node
import SignedRecords.Proofs.Authenticity

/-!
# Sequence number zero

A record has a sequence number other than zero, and an item of the DHT may have any. So an item
with zero that its owner has signed is kept by nodes and found by gets, and no record can be built
of what they answer. Nothing else that becomes visible has sequence number zero: what is written
and what the store holds are valid records.

Main statement: `zero_sequence_visible`.
-/

namespace SignedRecords

open ServiceMachine

/-! ## 1. Two notions of validity -/

/-- A valid record is one whose item verifies and whose sequence number is not zero. -/
theorem Record.validate_iff_verify {r : Record} :
    r.validate = .ok () ↔ r.item.verify = true ∧ r.sequence ≠ 0 := by
  have hverify : r.item.verify = true ↔
      r.value.length ≤ maxValueSize ∧ r.signatureHolds = true := by
    unfold Item.verify Record.item Item.signed
    dsimp only
    split
    · rename_i hlarge
      exact iff_of_false Bool.noConfusion fun h => Nat.not_lt.2 h.1 hlarge
    · rename_i hfits
      exact ⟨fun h => ⟨Nat.le_of_not_lt hfits, h⟩, And.right⟩
  rw [validate_eq_ok, hverify]
  exact ⟨fun ⟨hfits, hseq, hsigned⟩ => ⟨⟨hfits, hsigned⟩, hseq⟩,
    fun ⟨⟨hfits, hsigned⟩, hseq⟩ => ⟨hfits, hseq, hsigned⟩⟩

/-- No record is built of a response with sequence number zero. -/
theorem Record.ofResponse_of_zero {key : Octets 32} {r : Response}
    (hfits : r.value.length ≤ maxValueSize) (hzero : r.sequence = 0) :
    Record.ofResponse key.toList r = .error .missingSequence := by
  unfold ofResponse make
  simp only [Octets.ofBytes?_toList]
  rw [if_neg (Nat.not_lt.2 hfits), if_pos hzero]

/-- What a response that becomes visible under the id of a key is. -/
inductive Visible (items : Item → Prop) (key : Octets 32) (r : Response) : Prop where
  /-- It is the response of a valid record of the key, which is built of it again. -/
  | record (record : Record) (hvalid : record.validate = .ok ()) (hkey : record.key = key)
      (hresponse : record.response = r) (hbuild : Record.ofResponse key.toList r = .ok record)
      (hsequence : r.sequence ≠ 0)
  /-- The DHT has brought it as an item of the key that verifies and has sequence number zero; no
      record is built of it. -/
  | zero (item : Item) (hitem : items item) (hkey : item.key = some key) (hsalt : item.salt = [])
      (hseq : item.seq = some 0) (hverify : item.verify = true)
      (hresponse : (FullGet.ofItem item).response = r) (hsequence : r.sequence = 0)
      (hbuild : Record.ofResponse key.toList r = .error .missingSequence)
  /-- The key and salt of an item collide with the key. -/
  | collides (h : KeyCollision items key)

theorem Visible.of_record {items : Item → Prop} {record : Record}
    (hvalid : record.validate = .ok ()) : Visible items record.key record.response :=
  .record record hvalid rfl rfl (Record.make_of_validate hvalid)
    (Record.validate_eq_ok.1 hvalid).2.1

theorem Vouched.visible {items : Item → Prop} {key : Octets 32} {r : Response}
    (h : Vouched items key r) : Visible items key r := by
  cases h with
  | record record hkey hvalid hr =>
    subst hkey hr
    exact .of_record hvalid
  | item item hitem hkey hsalt hverify hr =>
    obtain ⟨hfits, s, seq, hsignature, hseq, -⟩ := Item.signed_of_verify hkey hverify
    let record : Record := ⟨key, item.value, s, seq⟩
    have hitem' : item = record.item := by
      cases item
      simp only at hkey hsalt hsignature hseq
      rw [hkey, hsalt, hsignature, hseq]
      rfl
    have hresponse : (FullGet.ofItem record.item).response = record.response := by
      simp only [FullGet.ofItem, Record.item, Item.signed, Option.bind_some, Option.getD_some,
        Octets.ofBytes?_toList]
      rfl
    have hsame : record.response = r := by rw [← hresponse, ← hitem', hr]
    subst hsame
    by_cases hzero : seq = 0
    · exact .zero item hitem hkey hsalt (hseq.trans (congrArg some hzero)) hverify hr hzero
        (Record.ofResponse_of_zero hfits hzero)
    · exact .of_record (Record.validate_iff_verify.2 ⟨hitem' ▸ hverify, hzero⟩)

/-! ## 2. Runs -/

/-- What an event brings is cached under a canonical id. -/
theorem id_of_brings {m : ServiceMachine} (hv : m.WritesValid) (hc : m.SeeksCanonical)
    {event : ServiceEvent} {b : Brought} (hb : m.brings? event = some b) :
    ∃ key, b.id = recordId key := by
  cases b with
  | published id record => exact ⟨record.key, (valid_of_published hv hb).1⟩
  | resolved id response =>
    obtain ⟨call, full, -, -, -, hw⟩ := answered_of_resolved hb
    exact hc call id (.inl hw)
  | restored id record =>
    obtain ⟨-, call, -, hw⟩ := read_of_restored hb
    exact hc call id (.inr hw)

/-- A response that is found is found for a canonical id. -/
theorem seeks_of_found {m : ServiceMachine} (hc : m.SeeksCanonical) {now call : Nat}
    {event : ServiceEvent} {r : Response}
    (h : .replies call (.found r) ∈ (m.step now event).2) :
    ∃ key, m.seeks? event = some (recordId key) := by
  rcases found_of_step h with ⟨text, key, rfl, hid, -⟩ | ⟨id, hb⟩ | ⟨id, record, hb, -⟩
  · exact ⟨key, by simp only [seeks?, hid]; rfl⟩
  · obtain ⟨c, full, rfl, -, -, hw⟩ := answered_of_resolved hb
    obtain ⟨key, rfl⟩ := hc c id (.inl hw)
    exact ⟨key, by simp only [seeks?, hw]⟩
  · obtain ⟨-, c, rfl, hw⟩ := read_of_restored hb
    obtain ⟨key, rfl⟩ := hc c id (.inr hw)
    exact ⟨key, by simp only [seeks?, hw]⟩

/-- All that a service with an empty cache ever finds was brought. -/
theorem brought_of_found {m : ServiceMachine} (hempty : m.service.responses.entries = [])
    {history : History} {now call : Nat} {event : ServiceEvent} {id : String}
    (hid : (m.after history).seeks? event = some id) {r : Response}
    (hfound : .replies call (.found r) ∈ ((m.after history).step now event).2) :
    ∃ b ∈ m.broughtIn ((now, event) :: history), b.id = id ∧ b.response = r := by
  rcases found_of_seeks hid hfound with hheld | hresolved | ⟨record, hrestored, hr⟩
  · rcases held?_after (TtlCache.distinct_of_nil hempty) hheld with ⟨b, hb, hr⟩ | ⟨-, hstart⟩
    · obtain ⟨hmem, hb⟩ := lastCached?_eq_some hb
      exact ⟨b, List.mem_append_right _ (mem_broughtIn_of_mem_cachedIn hmem), hb, hr⟩
    · rw [TtlCache.held?_of_nil hempty] at hstart
      cases hstart
  · exact ⟨_, List.mem_append_left _ (Option.mem_toList.2 hresolved), rfl, rfl⟩
  · exact ⟨_, List.mem_append_left _ (Option.mem_toList.2 hrestored), rfl, hr⟩

/-- What is cached or found under the id of a key, over nodes that answer any items, is the response
    of a valid record of the key; or, and only then has it sequence number zero and rebuilds no
    record, it is an item of the key with zero that verifies and that the DHT has brought; or keys
    collide under SHA-1. This is so for every event after every history of a service whose cache is
    empty and whose store is genuine at the start. -/
theorem zero_sequence_visible (start : Service) (hempty : start.responses.entries = [])
    (hstore : start.store.Genuine) (items : Item → Prop) (history : History) (now : Nat)
    (event : ServiceEvent)
    (hdht : OverDht items (ofService start) ((now, event) :: history)) :
    (∀ b, ((ofService start).after history).brings? event = some b →
      ∃ key, b.id = recordId key ∧ Visible items key b.response) ∧
    ∀ call r, .replies call (.found r) ∈ (((ofService start).after history).step now event).2 →
      ∃ key, ((ofService start).after history).seeks? event = some (recordId key) ∧
        Visible items key r := by
  have hvstart := writesValid_ofService start
  have hv := writesValid_after hvstart history
  have hc := seeksCanonical_after (seeksCanonical_ofService start) history
  -- What was brought under the id of a key at any time is visible in one of the three ways.
  have hvisible : ∀ key, ∀ b ∈ (ofService start).broughtIn ((now, event) :: history),
      b.id = recordId key → Visible items key b.response := by
    intro key b hb hid
    rcases vouched_of_broughtIn hvstart hstore hdht hb hid with hvouched | hcollide
    · exact hvouched.visible
    · exact .collides hcollide
  constructor
  · intro b hb
    obtain ⟨key, hid⟩ := id_of_brings hv hc hb
    exact ⟨key, hid, hvisible key b (List.mem_append_left _ (Option.mem_toList.2 hb)) hid⟩
  · intro call r hfound
    obtain ⟨key, hid⟩ := seeks_of_found hc hfound
    obtain ⟨b, hb, hown, rfl⟩ := brought_of_found (m := ofService start) hempty hid hfound
    exact ⟨key, hid, hvisible key b hb hown⟩

/-- A lookup of an id answers the item with which a search for its target ends. -/
theorem dhtTurn_of_receiveAll {items : Item → Prop} {item : Item} {key : Octets 32}
    {config : DhtConfig} {localId : NodeId} {seeds : List Peer} {s : Search}
    (hrun : SearchRun items (config.lookup localId (NodeId.ofKey key []) none seeds) s)
    (hread : (s.receiveAll.getRight?.bind fun e => e.result.toOption.map (·.1)) = some item) :
    DhtTurn items (recordId key) (.answers (.ok (.ofItem item))) := by
  obtain ⟨e, he, hresult⟩ := Option.bind_eq_some_iff.1 hread
  have hends := (hrun.receiveUpTo _).2 e (Sum.getRight?_eq_some_iff.1 he)
  have htarget : targetOfId (recordId key) = .ok (NodeId.ofKey key []) := by
    simp only [targetOfId, readRecordId_recordId]
  have hturn := DhtTurn.ends config localId seeds htarget hends
  cases hfound : e.result with
  | error error =>
    rw [hfound] at hresult
    cases hresult
  | ok found =>
    rw [hfound] at hresult hturn
    have hitem : found.1 = item := Option.some.inj hresult
    simp only [Except.map, hitem] at hturn
    exact hturn

/-- An item with sequence number zero. -/
def zeroItem : Item := (neutralRecord [1] 0).item

/-- A stranger puts an item with sequence number zero on a node, which keeps it and answers it; and
    a get finds it. -/
theorem zero_sequence_visible_of_one_node :
    ∃ (start : Service) (node : Node) (stranger : Peer) (now : Stamp) (history : History)
      (event : ServiceEvent) (r : Response),
      start.responses.entries = [] ∧ start.store.Genuine ∧ r.sequence = 0 ∧
      ((node.handle now stranger.addr (.put stranger zeroItem 1)).1.handle now stranger.addr
          (.get stranger zeroItem.target none 2)).2 = some (.got node.self (some zeroItem) [] 2) ∧
      OverDht (· = zeroItem) (ofService start) ((1, event) :: history) ∧
      .replies 0 (.found r) ∈ (((ofService start).after history).step 1 event).2 ∧
      ∃ key, ((ofService start).after history).seeks? event = some (recordId key) ∧
        Visible (· = zeroItem) key r := by
  let start : Service := .fresh .standard (.memory .empty)
  let peer : Peer := ⟨1, .v4 (.zero 4) 0, default⟩
  let stranger : Peer := ⟨2, .v4 (.zero 4) 1, default⟩
  let node : Node := .fresh peer 0 0 0 1000
  let found : LookupTurn := .answers (.ok (.ofItem zeroItem))
  let l := DhtConfig.standard.lookup 0 (NodeId.ofKey neutralKey []) none [peer]
  -- The node is asked, and it answers the item and no further nodes.
  let answered := ((Search.ofLookup l).begin.1.answer peer.id (some ⟨some zeroItem, []⟩)).1
  have hrun : SearchRun (· = zeroItem) l answered :=
    .replies (.begins .start) _ _ fun i hi => (Option.some.inj hi).symm
  have hturn : DhtTurn (· = zeroItem) (recordId neutralKey) found :=
    dhtTurn_of_receiveAll hrun (by decide +kernel)
  have hkept : ((node.handle default stranger.addr (.put stranger zeroItem 1)).1.handle default
      stranger.addr (.get stranger zeroItem.target none 2)).2 =
        some (.got peer (some zeroItem) [] 2) := by
    decide +kernel
  have hfound : .replies 0 (.found (FullGet.ofItem zeroItem).response) ∈
      (((ofService start).after [(0, .get 0 (recordId neutralKey))]).step 1
        (.lookup 0 found)).2 := by
    decide +kernel
  have hdht : OverDht (· = zeroItem) (ofService start)
      [(1, .lookup 0 found), (0, .get 0 (recordId neutralKey))] := by
    refine ⟨fun call turn id hevent hw => ?_, fun call turn id hevent => (nomatch hevent), trivial⟩
    cases hevent
    have hid : ((ofService start).after [(0, .get 0 (recordId neutralKey))]).waiting? 0 =
        some (.lookup (recordId neutralKey)) := by
      decide +kernel
    rw [hid] at hw
    cases hw
    exact hturn
  have hstore : start.store.Genuine := by
    intro id r hr
    have hnone : start.store.read id = .ok none := rfl
    rw [hnone] at hr
    cases hr
  exact ⟨start, node, stranger, default, _, _, _, rfl, hstore, by decide, hkept, hdht, hfound,
    (zero_sequence_visible start rfl hstore _ _ 1 _ hdht).2 0 _ hfound⟩

end SignedRecords
