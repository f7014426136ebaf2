import SignedRecords.Dht.Exchange
import SignedRecords.Proofs.Authenticity
import SignedRecords.Proofs.NodeRuns
import SignedRecords.Proofs.RoundTrip

/-!
# Answers that fit into a datagram

A put fits into a datagram, or it does not come. The answer to a get carries the same item, and up
to eight nodes besides: it is longer than the put by what these nodes take. What a check of an item
bounds is its value, so a record is always short enough to be answered. Its salt is bounded by the
datagram alone, and an item whose salt fills the datagram is kept and never answered.

Main statement: `Node.answered_iff_short`.
-/

namespace SignedRecords

/-! ## 1. How many octets the parts take -/

/-- The octets that an address takes. -/
def Address.octetCount : Address → Nat
  | .v4 .. => 10
  | .v6 .. => 22

/-- The octets that a peer takes. -/
def Peer.octetCount (p : Peer) : Nat := p.addr.octetCount + 32

/-- The octets that a well-formed item takes. -/
def Item.octetCount (i : Item) : Nat :=
  i.value.length + i.salt.length + if i.isMutable then 131 else 19

/-- The octets that an answer with an item takes. -/
def replyOctets (shown : Peer) (item : Item) (nodes : List Peer) : Nat :=
  shown.octetCount + item.octetCount + (nodes.map (·.octetCount)).sum + 21

theorem Peer.octetCount_bounds (p : Peer) : 42 ≤ p.octetCount ∧ p.octetCount ≤ 54 := by
  unfold Peer.octetCount
  cases p.addr <;> simp [Address.octetCount]

theorem sum_octetCount_le (nodes : List Peer) :
    (nodes.map (·.octetCount)).sum ≤ 54 * nodes.length := by
  induction nodes with
  | nil => exact Nat.le_refl 0
  | cons p others ih =>
    have hp := p.octetCount_bounds
    rw [List.map_cons, List.sum_cons, List.length_cons]
    omega

namespace Codec

theorem length_writeAddress (a : Address) : (writeAddress a).length = a.octetCount := by
  cases a with
  | v4 ip port => simp [writeAddress, writeTag, ip.length_eq, Address.octetCount]
  | v6 ip port flow scope => simp [writeAddress, writeTag, ip.length_eq, Address.octetCount]

theorem PeerForm.octetCount {p : Peer} {bs : Bytes} (h : PeerForm p bs) :
    bs.length = p.octetCount := by
  rw [h.length, length_writeAddress, Peer.octetCount]
  omega

/-- A peer is written if its stamp is one since 1970, under whatever address. -/
theorem writePeer_ok {p : Peer} (h : 0 ≤ p.lastSeen.seconds) :
    ∃ bs, writePeer p = .ok bs ∧ bs.length = p.octetCount := by
  obtain ⟨seen, hseen, _, _, -, -, -, rfl⟩ := StampForm.of_writeStamp h
  refine ⟨_, by rw [writePeer, hseen]; rfl, ?_⟩
  simp only [List.length_append, p.id.octets.length_eq, length_writeAddress, writeWord,
    Bytes.length_littleEndian, Peer.octetCount]
  omega

theorem writePeers_ok {ps : List Peer} (h : ∀ p ∈ ps, 0 ≤ p.lastSeen.seconds) :
    ∃ bs, writePeers ps = .ok bs ∧ bs.length = (ps.map (·.octetCount)).sum + 8 := by
  have hparts : ∃ parts, ps.mapM writePeer = .ok parts ∧
      parts.flatten.length = (ps.map (·.octetCount)).sum := by
    induction ps with
    | nil => exact ⟨[], rfl, rfl⟩
    | cons p others ih =>
      rw [List.forall_mem_cons] at h
      obtain ⟨bs, hbs, hlength⟩ := writePeer_ok h.1
      obtain ⟨parts, hparts, hlengths⟩ := ih h.2
      refine ⟨bs :: parts, by rw [List.mapM_cons, hbs, hparts]; rfl, ?_⟩
      rw [List.flatten_cons, List.length_append, hlength, hlengths, List.map_cons, List.sum_cons]
  obtain ⟨parts, hwritten, hlength⟩ := hparts
  refine ⟨_, by rw [writePeers, hwritten]; rfl, ?_⟩
  rw [List.length_append, hlength, writeWord, Bytes.length_littleEndian]
  omega

/-- Key, signature and sequence number are all there or all absent, and a signature that holds has
    64 octets. -/
theorem length_writeItem {i : Item} (h : i.verify = true) :
    (writeItem i).length = i.octetCount := by
  rcases hkey : i.key with _ | key
  · obtain ⟨hsignature, hseq⟩ : i.signature = none ∧ i.seq = none := by
      unfold Item.verify at h
      split at h
      · cases h
      · rw [hkey] at h
        split at h
        · contradiction
        · exact ⟨‹_›, ‹_›⟩
        · cases h
    simp only [writeItem, hkey, hsignature, hseq, writeOption, writeOctets, writeWord,
      List.length_append, List.length_singleton, Bytes.length_littleEndian, Item.octetCount,
      Item.isMutable, Option.isSome_none, Bool.false_eq_true, if_false]
    omega
  · obtain ⟨-, s, seq, hsignature, hseq, -⟩ := Item.signed_of_verify hkey h
    simp only [writeItem, hkey, hsignature, hseq, writeOption, writeOctets, writeWord,
      writeSequence, List.length_append, List.length_cons, Bytes.length_littleEndian, key.length_eq,
      s.length_eq, Item.octetCount, Item.isMutable, Option.isSome_some, if_true]
    omega

/-- The answer with an item is written, and the parts say how long it is. -/
theorem write_got {shown : Peer} {item : Item} {nodes : List Peer} (hitem : item.verify = true)
    (hshown : 0 ≤ shown.lastSeen.seconds) (hnodes : ∀ p ∈ nodes, 0 ≤ p.lastSeen.seconds)
    (j : UInt64) : ∃ bytes, write (.got shown (some item) nodes j) = .ok bytes ∧
      bytes.length = replyOctets shown item nodes := by
  obtain ⟨sender, hsender, hlength⟩ := writePeer_ok hshown
  obtain ⟨named, hnamed, hlengths⟩ := writePeers_ok hnodes
  have hbody : writeBody (.got shown (some item) nodes j) =
      .ok (writeOption writeItem (some item) ++ named) := by
    rw [writeBody, hnamed]
    rfl
  refine ⟨_, write_of_parts hsender hbody, ?_⟩
  simp only [List.length_append, writeTag, writeWord, Bytes.length_littleEndian, hlength, hlengths,
    writeOption, List.length_cons, length_writeItem hitem, replyOctets]
  omega

end Codec

/-! ## 2. Puts that come in a datagram -/

/-- A message that can come: some datagram reads as it. -/
def Message.Comes (m : Message) : Prop := ∃ datagram, messageIn datagram = .ok m

/-- What a put adds to its item is shorter than what an answer adds to it. -/
theorem octetCount_of_comes {sender : Peer} {item : Item} {i : UInt64}
    (h : (Message.put sender item i).Comes) (hitem : item.verify = true) :
    sender.octetCount + item.octetCount + 12 ≤ maxDatagram := by
  obtain ⟨datagram, hread⟩ := h
  obtain ⟨rest, hrun⟩ := Codec.read_eq_ok.1 hread
  obtain ⟨taken, hform, htaken⟩ := (Codec.takes_readMessage _ _ _).1 hrun
  have hcut : taken.length ≤ maxDatagram := by
    have hlength := congrArg List.length htaken
    rw [List.length_append, List.length_take] at hlength
    omega
  obtain ⟨written, body, hsender, ⟨-, rfl⟩, rfl⟩ := hform
  have hwritten := Codec.PeerForm.octetCount hsender
  simp only [List.length_append, Codec.writeTag, Codec.writeWord, Bytes.length_littleEndian,
    hwritten, Codec.length_writeItem hitem, Message.sender] at hcut
  omega

/-! ## 3. Answers -/

namespace Node

variable {node : Node} {now : Stamp} {source : Address} {sender shown : Peer} {target : NodeId}
  {known : Option Sequence} {i j : UInt64} {item : Item} {nodes : List Peer}

/-- What an answer lists is at most `k` nodes that were in the table, and the one that asks. -/
theorem listed_of_got
    (h : (node.handle now source (.get sender target known i)).2 =
      some (.got shown (some item) nodes j)) :
    shown = node.self ∧ node.items.get target known now = some item ∧ nodes.length ≤ node.k ∧
      ∀ p ∈ nodes, p = { sender with addr := source }.touched now ∨ p ∈ node.routing.nodes := by
  have hreply := Option.some.inj h
  injection hreply with hshown hitem hnodes
  refine ⟨hshown.symm, hitem, ?_, fun p hp => ?_⟩
  · rw [← hnodes]
    exact List.length_take_le _ _
  · rw [← hnodes] at hp
    exact RoutingTable.mem_of_update (List.mem_mergeSort.1 (List.mem_of_mem_take hp))

/-- After messages that came in the years since 1970 the nodes in a table were seen since then. -/
theorem seen_after (self : Peer) (bucketSize k nodeTtl itemTtl : Nat) (past : List Arrival)
    (h : ∀ a ∈ past, 0 ≤ a.now.seconds) :
    ∀ p ∈ ((fresh self bucketSize k nodeTtl itemTtl).after past).routing.nodes,
      0 ≤ p.lastSeen.seconds := by
  induction past with
  | nil =>
    intro p hp
    cases hp
  | cons a past ih =>
    rw [List.forall_mem_cons] at h
    intro p hp
    rw [after, handle_routing] at hp
    rcases RoutingTable.mem_of_update hp with rfl | hp
    · exact h.1
    · exact ih h.2 p hp

/-- Whatever a node has been sent in datagrams, and whatever nodes are in its table by now: when it
    answers a get with an item, the answer can be written, and it goes out exactly if it is not
    longer than a datagram. It may be longer, but only by what it says of nodes and the put does
    not, and only if the salt of the item is long, as that of a record is not. -/
theorem answered_iff_short (self : Peer) (bucketSize nodeTtl itemTtl : Nat) (past : List Arrival)
    (hpast : ∀ a ∈ past, a.message.Comes) (routing : RoutingTable)
    (hself : 0 ≤ self.lastSeen.seconds) (hrouting : ∀ p ∈ routing.nodes, 0 ≤ p.lastSeen.seconds)
    (hnow : 0 ≤ now.seconds)
    (hreply : (handle { (fresh self bucketSize 8 nodeTtl itemTtl).after past with routing }
      now source (.get sender target known i)).2 = some (.got shown (some item) nodes j)) :
    (∃ bytes, Codec.write (.got shown (some item) nodes j) = .ok bytes ∧
      datagramOf (.got shown (some item) nodes j) =
        if replyOctets shown item nodes ≤ maxDatagram then .ok bytes
        else .error (.failed
          s!"message of {replyOctets shown item nodes} bytes exceeds a datagram")) ∧
    replyOctets shown item nodes ≤ maxDatagram + 453 ∧
    (item.salt.length ≤ 63869 → replyOctets shown item nodes ≤ maxDatagram) := by
  have hsound := sound_after self bucketSize 8 nodeTtl itemTtl past
  obtain ⟨hshown, hitem, hlength, hlisted⟩ := listed_of_got hreply
  obtain rfl : shown = self := hshown.trans hsound.self
  have hk : nodes.length ≤ 8 := Nat.le_trans hlength (Nat.le_of_eq hsound.k)
  obtain ⟨hholds, ⟨moment, ⟨later, before, origin, putter, n, hput, -⟩, -⟩, -⟩ :=
    hsound.genuine hitem
  have hverify : item.verify = true := (Bool.and_eq_true_iff.1 hholds).2
  have hcomes : (Message.put putter item n).Comes := by
    refine hpast ⟨moment, origin, .put putter item n⟩ ?_
    rw [hput]
    exact List.mem_append_right _ List.mem_cons_self
  have hsum := sum_octetCount_le nodes
  have hanswerer := shown.octetCount_bounds
  refine ⟨?_, ?_, fun hsalt => ?_⟩
  · have hseen : ∀ p ∈ nodes, 0 ≤ p.lastSeen.seconds := by
      intro p hp
      rcases hlisted p hp with rfl | hp
      · exact hnow
      · exact hrouting p hp
    obtain ⟨bytes, hbytes, hoctets⟩ := Codec.write_got hverify hself hseen j
    refine ⟨bytes, hbytes, ?_⟩
    simp only [datagramOf, hbytes, hoctets, ← Nat.not_le, ite_not]
  · -- The put names one node, the answer up to nine.
    have hshort := octetCount_of_comes hcomes hverify
    have hputter := putter.octetCount_bounds
    unfold replyOctets
    omega
  · have hvalue : item.value.length ≤ 1000 := Item.fits_of_verify hverify
    have hmax : maxDatagram = 65507 := rfl
    unfold replyOctets Item.octetCount
    split <;> omega

/-- A node is sent an item of one octet whose salt fills the datagram, and keeps it; the one who put
    it asks for it at once, and the answer cannot be sent. -/
theorem not_answered_of_long_salt :
    ∃ (self : Peer) (past : List Arrival) (now : Stamp) (source : Address) (sender : Peer)
      (item : Item) (nodes : List Peer) (octets : Nat),
      let start := fresh self 8 8 60000 60000
      (∀ a ∈ past, a.message.Comes) ∧ start.TookAt past item now ∧
      ((start.after past).handle now source (.get sender item.target none 2)).2 =
        some (.got self (some item) nodes 2) ∧
      maxDatagram < octets ∧ datagramOf (.got self (some item) nodes 2) =
        .error (.failed s!"message of {octets} bytes exceeds a datagram") := by
  let host : Nat → Address := fun n => .v4 ⟨[10, 0, 0, UInt8.ofNat n], rfl⟩ 6881
  let now : Stamp := .ofNanos 0
  let self : Peer := ⟨1, host 1, now⟩
  let sender : Peer := ⟨2, host 2, now⟩
  let item : Item := ⟨[97], none, none, none, List.replicate 65433 0⟩
  let start := fresh self 8 8 60000 60000
  let past : List Arrival := [⟨now, host 2, .put sender item 1⟩]
  have hverify : item.verify = true := by decide
  have hsender : sender.octetCount = 42 := rfl
  have hitem : item.octetCount = 65453 := by
    show [97].length + (List.replicate 65433 (0 : UInt8)).length + 19 = 65453
    rw [List.length_replicate]
    rfl
  -- The datagram of the put is exactly as long as one may be.
  have hcomes : (Message.put sender item 1).Comes := by
    have hspan : Bytes.span 8 = 2 ^ 64 := by decide
    have hpeers : ∀ p ∈ (Message.put sender item 1).peers, p.IsWritable :=
      List.forall_mem_singleton.2 ⟨by decide, trivial⟩
    have hfits : (Message.put sender item 1).FitsWords := by
      refine ⟨by simp [item, hspan], by simp [item], ?_⟩
      rw [List.length_replicate, hspan]
      decide
    obtain ⟨bytes, -, hform⟩ := Codec.MessageForm.of_isWritable hpeers hfits
    refine ⟨bytes, ?_⟩
    have hlength : bytes.length = maxDatagram := by
      obtain ⟨written, body, hwritten, ⟨-, rfl⟩, rfl⟩ := hform
      have hlength : written.length = 42 := (Codec.PeerForm.octetCount hwritten).trans hsender
      simp only [List.length_append, Codec.writeTag, Codec.writeWord, Bytes.length_littleEndian,
        hlength, Codec.length_writeItem hverify, hitem]
    have hback := hform.read []
    rwa [List.append_nil, ← List.take_of_length_le (Nat.le_of_eq hlength)] at hback
  have hput : ∃ items, start.items.put item now = .ok items :=
    ⟨_, ItemStore.put_eq_ok.2 ⟨hverify, rfl, rfl⟩⟩
  obtain ⟨items, hput⟩ := hput
  have hstep := handle_put_ok hput (host 2) sender 1
  have htook : start.TookAt past item now := by
    refine ⟨[], [], host 2, sender, 1, rfl, ?_⟩
    rw [show start.after [] = start from rfl, hstep]
  have hkept : (start.after past).items.get item.target none now = some item := by
    refine ItemStore.get_eq_some.2 ⟨⟨item, start.items.endOfLife now⟩, ?_, ?_, ?_, rfl⟩
    · rw [after, show start.after [] = start from rfl, hstep]
      exact (ItemStore.lookup_of_put hput item.target).trans (if_pos rfl)
    · decide
    · intro n k hn
      cases hn
  have hpast : ∀ a ∈ past, a.message.Comes := List.forall_mem_singleton.2 hcomes
  obtain ⟨shown, nodes, j, hreply⟩ :=
    (@got_item_iff _ now (host 2) sender item.target none 2 item).2 hkept
  obtain ⟨-, hshown, hid⟩ := reply_matches hreply
  obtain rfl : shown = self := hshown.trans (sound_after self 8 8 60000 60000 past).self
  obtain rfl : j = 2 := hid
  have hlong : maxDatagram < replyOctets self item nodes := by
    have hself : self.octetCount = 42 := rfl
    rw [replyOctets, hitem, hself]
    show 65507 < _
    omega
  obtain ⟨⟨bytes, -, hdatagram⟩, -⟩ :=
    answered_iff_short self 8 60000 60000 past hpast (start.after past).routing (by decide)
      (seen_after self 8 8 60000 60000 past (by decide)) (by decide) hreply
  rw [if_neg (Nat.not_le.2 hlong)] at hdatagram
  exact ⟨self, past, now, host 2, sender, item, nodes, _, hpast, htook, hreply, hlong, hdatagram⟩

end Node

end SignedRecords
