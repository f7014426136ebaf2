import SignedRecords.Proofs.Lookups
import SignedRecords.Proofs.NeutralKey
import SignedRecords.Proofs.ServiceRuns

/-!
# What is found is signed by the owner of the id

The key of an item is checked once, when a lookup compares its target; the response that is cached
and answered does not carry it. Whatever the nodes of the DHT answer, in whatever order and however
the pieces of calls are interleaved, a response that is found for an id still holds for the key of
the id. An item of another key or with a salt could only get through with a collision of the digest.

Main statement: `found_authentic`.
-/

namespace SignedRecords

open ServiceMachine

/-! ## 1. Targets -/

/-- Two different octet strings with the same digest. -/
def Sha1.Collide (a b : Bytes) : Prop := a ≠ b ∧ Sha1.digest a = Sha1.digest b

theorem NodeId.ofOctets_inj {a b : Octets 20} (h : NodeId.ofOctets a = NodeId.ofOctets b) :
    a = b := by
  have hlt : ∀ c : Octets 20, Bytes.ofBigEndian c.toList < 2 ^ 160 := by
    intro c
    have hc := Bytes.ofBigEndian_lt c.toList
    rw [c.length_eq] at hc
    exact hc
  have hnat := congrArg BitVec.toNat h
  simp only [NodeId.ofOctets, BitVec.toNat_ofNat, Nat.mod_eq_of_lt (hlt _)] at hnat
  have ha := Bytes.bigEndian_ofBigEndian a.toList
  have hb := Bytes.bigEndian_ofBigEndian b.toList
  rw [a.length_eq] at ha
  rw [b.length_eq] at hb
  exact Octets.ext (by rw [← ha, ← hb, hnat])

/-- An item at the target of a key without salt is of this key and without salt, or its key and
    salt collide with the key. -/
theorem NodeId.eq_of_ofKey {k key : Octets 32} {salt : Bytes}
    (h : NodeId.ofKey k salt = NodeId.ofKey key []) :
    (k = key ∧ salt = []) ∨ Sha1.Collide (k.toList ++ salt) key.toList := by
  have hdigest := NodeId.ofOctets_inj h
  rw [List.append_nil] at hdigest
  by_cases heq : k.toList ++ salt = key.toList
  · left
    have hlen := congrArg List.length heq
    rw [List.length_append, k.length_eq, key.length_eq] at hlen
    have hsalt : salt = [] := List.length_eq_zero_iff.1 (by omega)
    subst hsalt
    rw [List.append_nil] at heq
    exact ⟨Octets.ext heq, rfl⟩
  · exact .inr ⟨heq, hdigest⟩

/-! ## 2. Responses that hold -/

/-- A response that holds for a key: the value fits, and the signature holds with no salt. -/
structure Response.Authentic (r : Response) (key : Octets 32) : Prop where
  fits : r.value.length ≤ maxValueSize
  signed : itemSignatureHolds key [] r.sequence r.value r.signature.toList = true

/-- Where a response for a key comes from: a valid record of the key, or an item of the key without
    salt that verifies. -/
inductive Vouched (items : Item → Prop) (key : Octets 32) (r : Response) : Prop where
  | record (record : Record) (hkey : record.key = key) (hvalid : record.validate = .ok ())
      (hr : record.response = r)
  | item (item : Item) (hitem : items item) (hkey : item.key = some key) (hsalt : item.salt = [])
      (hverify : item.verify = true) (hr : (FullGet.ofItem item).response = r)

/-- Octets that are accepted as a signature have its width. -/
theorem width_of_itemSignatureHolds {key : Octets 32} {salt value signature : Bytes}
    {sequence : Sequence} (h : itemSignatureHolds key salt sequence value signature = true) :
    ∃ s : Octets 64, signature = s.toList := by
  unfold itemSignatureHolds at h
  split at h
  · cases h
  · unfold verifySignature at h
    split at h
    · cases h
    · rename_i s hs
      exact ⟨s, Octets.ofBytes?_eq_some.1 hs⟩

theorem Item.fits_of_verify {item : Item} (h : item.verify = true) :
    item.value.length ≤ maxValueSize := by
  unfold verify at h
  split at h
  · cases h
  · exact Nat.le_of_not_lt ‹_›

/-- A verified item with an owner carries a sequence number and a signature that holds. -/
theorem Item.signed_of_verify {item : Item} {key : Octets 32} (hkey : item.key = some key)
    (h : item.verify = true) :
    item.value.length ≤ maxValueSize ∧ ∃ (s : Octets 64) (seq : Sequence),
      item.signature = some s.toList ∧ item.seq = some seq ∧
        itemSignatureHolds key item.salt seq item.value s.toList = true := by
  unfold verify at h
  split at h
  · cases h
  · rename_i hfits
    refine ⟨Nat.le_of_not_lt hfits, ?_⟩
    rw [hkey] at h
    split at h
    · rename_i k signature seq hk hsignature hseq
      cases hk
      obtain ⟨s, rfl⟩ := width_of_itemSignatureHolds h
      exact ⟨s, seq, hsignature, hseq, h⟩
    · rename_i hk _ _
      cases hk
    · cases h

theorem Vouched.authentic {items : Item → Prop} {key : Octets 32} {r : Response}
    (h : Vouched items key r) : r.Authentic key := by
  cases h with
  | record record hkey hvalid hr =>
    subst hkey hr
    obtain ⟨hfits, -, hsigned⟩ := Record.validate_eq_ok.1 hvalid
    exact ⟨hfits, hsigned⟩
  | item item hitem hkey hsalt hverify hr =>
    subst hr
    obtain ⟨hfits, s, seq, hsignature, hseq, hsigned⟩ := Item.signed_of_verify hkey hverify
    rw [hsalt] at hsigned
    refine ⟨hfits, ?_⟩
    simp only [FullGet.ofItem, hsignature, hseq, Option.bind_some, Option.getD_some,
      Octets.ofBytes?_toList]
    exact hsigned

/-! ## 3. Searches of the DHT -/

/-- What a lookup of an id can come to over nodes whose replies bring only certain items: the time
    is up, the client fails, or a search for the target of the id ends, with any settings of the
    client and from any nodes. -/
inductive DhtTurn (items : Item → Prop) (id : String) : LookupTurn → Prop where
  | timesOut : DhtTurn items id .timesOut
  | fails (error : TransportError) : DhtTurn items id (.answers (.error error))
  | ends (config : DhtConfig) (localId : NodeId) (seeds : List Peer) {target : NodeId}
      {e : SearchEnd} (htarget : targetOfId id = .ok target)
      (he : SearchEnds items (config.lookup localId target none seeds) e) :
    DhtTurn items id (.answers (e.result.map fun found => .ofItem found.1))

/-- A collision of the digest between a key and the key and salt of an item. -/
def KeyCollision (items : Item → Prop) (key : Octets 32) : Prop :=
  ∃ item k, items item ∧ item.key = some k ∧ Sha1.Collide (k.toList ++ item.salt) key.toList

/-- An item with an owner that holds at the target of a key is one of the key, or there is a
    collision. -/
theorem vouched_of_holdsAt {items : Item → Prop} {key : Octets 32} {item : Item}
    (hitem : items item) (hholds : item.holdsAt (NodeId.ofKey key []) = true)
    (hm : item.isMutable = true) :
    Vouched items key (FullGet.ofItem item).response ∨ KeyCollision items key := by
  obtain ⟨k, hk⟩ := Option.isSome_iff_exists.1 hm
  simp only [Item.holdsAt, Item.target, hk, Bool.and_eq_true, beq_iff_eq] at hholds
  obtain ⟨htarget, hverify⟩ := hholds
  rcases NodeId.eq_of_ofKey htarget with ⟨rfl, hsalt⟩ | hcollide
  · exact .inl (.item item hitem hk hsalt hverify rfl)
  · exact .inr ⟨item, k, hitem, hk, hcollide⟩

/-- What a lookup of an id answers are the parts of an item that holds at the target of the id. -/
theorem DhtTurn.answered {items : Item → Prop} {id : String} {full : FullGet}
    (h : DhtTurn items id (.answers (.ok full))) : ∃ item target, items item ∧
      targetOfId id = .ok target ∧ item.holdsAt target = true ∧ full = .ofItem item := by
  generalize hturn : LookupTurn.answers (.ok full) = turn at h
  cases h with
  | timesOut => cases hturn
  | fails error => cases hturn
  | ends config localId seeds htarget he =>
    rename_i target e
    cases hresult : e.result with
    | error error =>
      rw [hresult] at hturn
      cases hturn
    | ok found =>
      obtain ⟨item, stats⟩ := found
      rw [hresult] at hturn
      cases hturn
      obtain ⟨hitem, hholds⟩ := he.sound hresult
      exact ⟨item, target, hitem, htarget, hholds, rfl⟩

/-- An item with an owner that a lookup of an id answers is one of the key of the id, or there is a
    collision. -/
theorem DhtTurn.vouched {items : Item → Prop} {key : Octets 32} {full : FullGet}
    (h : DhtTurn items (recordId key) (.answers (.ok full))) (hm : full.isMutable = true) :
    Vouched items key full.response ∨ KeyCollision items key := by
  obtain ⟨item, target, hitem, htarget, hholds, rfl⟩ := h.answered
  have hkey : targetOfId (recordId key) = .ok (NodeId.ofKey key []) := by
    simp only [targetOfId, readRecordId_recordId]
  obtain rfl : NodeId.ofKey key [] = target := Except.ok.inj (hkey.symm.trans htarget)
  exact vouched_of_holdsAt hitem hholds hm

/-! ## 4. Runs -/

/-- The store holds only valid records, each under its own id. -/
def Store.Genuine (s : Store) : Prop :=
  ∀ id r, s.read id = .ok (some r) → r.id = id ∧ r.validate = .ok ()

theorem Store.Genuine.of_write {s s' : Store} (hs : s.Genuine) {r : Record}
    (hw : s.write r = .ok s') (hv : r.validate = .ok ()) : s'.Genuine := by
  intro id x hx
  rw [Store.read_of_write hw hv] at hx
  split at hx
  · rename_i hid
    cases hx
    exact ⟨hid.symm, hv⟩
  · exact hs id x hx

/-- All lookups in a history have gone over nodes whose replies bring only certain items. -/
def OverDht (items : Item → Prop) (m : ServiceMachine) : History → Prop
  | [] => True
  | (_, event) :: past =>
    (∀ call turn id, event = .lookup call turn → (m.after past).waiting? call = some (.lookup id) →
      DhtTurn items id turn) ∧ OverDht items m past

/-- Each lookup of such a history has. -/
theorem OverDht.turn {items : Item → Prop} {m : ServiceMachine} {later past : History}
    {now call : Nat} {turn : LookupTurn} {id : String}
    (h : OverDht items m (later ++ (now, .lookup call turn) :: past))
    (hw : (m.after past).waiting? call = some (.lookup id)) : DhtTurn items id turn := by
  induction later with
  | nil => exact h.1 call turn id rfl hw
  | cons e rest ih => exact ih h.2

theorem genuine_after {m : ServiceMachine} (hv : m.WritesValid) (hs : m.service.store.Genuine)
    (history : History) : (m.after history).service.store.Genuine := by
  induction history with
  | nil => exact hs
  | cons e past ih =>
    obtain ⟨now, event⟩ := e
    by_cases hb : ∃ id record, (m.after past).brings? event = some (.published id record)
    · obtain ⟨id, record, hb⟩ := hb
      have hvalid := (valid_of_published (writesValid_after hv past) hb).2
      exact ih.of_write (step_written now hb).1 hvalid
    · rw [after, step_store fun id record h => hb ⟨id, record, h⟩]
      exact ih

/-- What an event brings for the id of a key comes from the key, or there is a collision. -/
theorem vouched_of_brings {items : Item → Prop} {m : ServiceMachine} (hv : m.WritesValid)
    (hs : m.service.store.Genuine) {event : ServiceEvent}
    (hdht : ∀ call turn id, event = .lookup call turn → m.waiting? call = some (.lookup id) →
      DhtTurn items id turn)
    {b : Brought} (hb : m.brings? event = some b) {key : Octets 32} (hid : b.id = recordId key) :
    Vouched items key b.response ∨ KeyCollision items key := by
  cases b with
  | published id record =>
    obtain ⟨rfl, hvalid⟩ := valid_of_published hv hb
    exact .inl (.record record (recordId_inj.1 hid) hvalid rfl)
  | restored id record =>
    obtain ⟨hown, hvalid⟩ := hs id record (read_of_restored hb).1
    exact .inl (.record record (recordId_inj.1 (hown.trans hid)) hvalid rfl)
  | resolved id response =>
    obtain ⟨call, full, rfl, rfl, hm, hw⟩ := answered_of_resolved hb
    have hturn := hdht call _ id rfl hw
    obtain rfl : id = recordId key := hid
    exact hturn.vouched hm

theorem vouched_of_broughtIn {items : Item → Prop} {m : ServiceMachine} (hv : m.WritesValid)
    (hs : m.service.store.Genuine) {history : History} (hdht : OverDht items m history)
    {b : Brought} (hb : b ∈ m.broughtIn history) {key : Octets 32} (hid : b.id = recordId key) :
    Vouched items key b.response ∨ KeyCollision items key := by
  induction history with
  | nil => cases hb
  | cons e past ih =>
    obtain ⟨now, event⟩ := e
    rcases List.mem_append.1 hb with hb | hb
    · exact vouched_of_brings (writesValid_after hv past) (genuine_after hv hs past) hdht.1
        (Option.mem_toList.1 hb) hid
    · exact ih hdht.2 hb

/-- A response that is found for the id of a key holds for the key: the value has at most 1000
    octets, the signature holds with no salt, and it is the response of a valid record of the key
    or of an item of the key without salt, which has an owner and was not forged. Otherwise the key
    and salt of an item in the run collide with the key under SHA-1. This is so after every history
    of a service whose cache is empty and whose store is genuine at the start, whatever the nodes of
    the DHT do. -/
theorem found_authentic (start : Service) (hempty : start.responses.entries = [])
    (hstore : start.store.Genuine) (items : Item → Prop) (history : History) (now call : Nat)
    (event : ServiceEvent) (hdht : OverDht items (ofService start) ((now, event) :: history))
    (key : Octets 32)
    (hid : ((ofService start).after history).seeks? event = some (recordId key))
    (r : Response)
    (hfound : .replies call (.found r) ∈ (((ofService start).after history).step now event).2) :
    (r.Authentic key ∧ Vouched items key r) ∨ KeyCollision items key := by
  have hv := writesValid_ofService start
  have hd : (ofService start).service.responses.Distinct := TtlCache.distinct_of_nil hempty
  -- All that the event can answer was brought in the run.
  have hbrought : ∃ b ∈ (ofService start).broughtIn ((now, event) :: history),
      b.id = recordId key ∧ b.response = r := by
    rcases found_of_seeks hid hfound with hheld | hresolved | ⟨record, hrestored, hr⟩
    · rcases held?_after hd hheld with ⟨b, hb, hr⟩ | ⟨-, hstart⟩
      · obtain ⟨hmem, hb⟩ := lastCached?_eq_some hb
        exact ⟨b, List.mem_append_right _ (mem_broughtIn_of_mem_cachedIn hmem), hb, hr⟩
      · have hnone : (ofService start).service.responses.held? (recordId key) = none :=
          TtlCache.held?_of_nil hempty _
        rw [hnone] at hstart
        cases hstart
    · exact ⟨_, List.mem_append_left _ (Option.mem_toList.2 hresolved), rfl, rfl⟩
    · exact ⟨_, List.mem_append_left _ (Option.mem_toList.2 hrestored), rfl, hr⟩
  obtain ⟨b, hb, hown, rfl⟩ := hbrought
  rcases vouched_of_broughtIn hv hstore hdht hb hown with hvouched | hcollide
  · exact .inl ⟨hvouched.authentic, hvouched⟩
  · exact .inr hcollide

/-- A get finds the item that the one node of a DHT answers. -/
theorem found_authentic_of_one_node :
    ∃ (start : Service) (items : Item → Prop) (history : History) (event : ServiceEvent)
      (key : Octets 32) (r : Response),
      start.responses.entries = [] ∧ start.store.Genuine ∧
        OverDht items (ofService start) ((1, event) :: history) ∧
        .replies 0 (.found r) ∈ (((ofService start).after history).step 1 event).2 ∧
        ((r.Authentic key ∧ Vouched items key r) ∨ KeyCollision items key) := by
  let start : Service := .fresh .standard (.memory .empty)
  let item := (neutralRecord [1] 5).item
  let peer : Peer := ⟨1, .v4 (.zero 4) 0, default⟩
  let target := NodeId.ofKey neutralKey []
  let l := DhtConfig.standard.lookup 0 target none [peer]
  -- The node is asked, and it answers the item and no further nodes.
  let answered := ((Search.ofLookup l).begin.1.answer peer.id (some ⟨some item, []⟩)).1
  have hrun : SearchRun (· = item) l answered := by
    refine .replies (.begins .start) _ _ fun i hi => ?_
    exact (Option.some.inj hi).symm
  have hread : (answered.receiveAll.getRight?.bind fun e => e.result.toOption.map (·.1)) =
      some item := by
    decide +kernel
  obtain ⟨e, he, hresult⟩ := Option.bind_eq_some_iff.1 hread
  have hends : SearchEnds (· = item) l e :=
    (hrun.receiveUpTo _).2 e (Sum.getRight?_eq_some_iff.1 he)
  have hturn : DhtTurn (· = item) (recordId neutralKey) (.answers (.ok (.ofItem item))) := by
    have htarget : targetOfId (recordId neutralKey) = .ok target := by
      simp only [targetOfId, readRecordId_recordId]
      rfl
    have hends := DhtTurn.ends DhtConfig.standard 0 [peer] htarget hends
    cases hfound : e.result with
    | error error =>
      rw [hfound] at hresult
      cases hresult
    | ok found =>
      rw [hfound] at hresult hends
      have hitem : found.1 = item := Option.some.inj hresult
      simp only [Except.map, hitem] at hends
      exact hends
  have hfound : .replies 0 (.found (FullGet.ofItem item).response) ∈
      (((ofService start).after [(0, .get 0 (recordId neutralKey))]).step 1
        (.lookup 0 (.answers (.ok (.ofItem item))))).2 := by
    decide +kernel
  have hdht : OverDht (· = item) (ofService start)
      [(1, .lookup 0 (.answers (.ok (.ofItem item)))), (0, .get 0 (recordId neutralKey))] := by
    refine ⟨fun call turn id hevent hw => ?_, fun call turn id hevent => (nomatch hevent), trivial⟩
    cases hevent
    have hid : ((ofService start).after [(0, .get 0 (recordId neutralKey))]).waiting? 0 =
        some (.lookup (recordId neutralKey)) := by
      decide +kernel
    rw [hid] at hw
    cases hw
    exact hturn
  have hstore : start.store.Genuine := by
    intro id r hr
    have hnone : start.store.read id = .ok none := rfl
    rw [hnone] at hr
    cases hr
  exact ⟨start, _, _, _, neutralKey, _, rfl, hstore, hdht, hfound,
    found_authentic start rfl hstore _ _ 1 0 _ hdht neutralKey (by decide +kernel) _ hfound⟩

end SignedRecords
