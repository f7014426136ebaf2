import SignedRecords.Proofs.Forms

/-!
# Messages read back

A message that the layout can carry is read back from what is written of it, whatever follows. A
message that is read is written in as many octets as were taken, in the same ones unless a stamp
among them has nanoseconds of a second or more.
-/

namespace SignedRecords

namespace Codec

/-! ## What is written again -/

/-- The nanoseconds of the stamp that begins at a place. -/
def nanosAt (bs : Bytes) (place : Nat) : Nat := Bytes.ofLittleEndian ((bs.drop (place + 8)).take 4)

/-- The places of the stamps of peers, the first of which begins at `start`. -/
def placesFrom (start : Nat) : List Peer → List Nat
  | [] => []
  | p :: others =>
    let place := start + 20 + (writeAddress p.addr).length
    place :: placesFrom (place + 12) others

/-- The places of the stamps in the body of a message, which begins at `start`. -/
def bodyPlaces (start : Nat) : Message → List Nat
  | .foundNodes _ nodes _ => placesFrom (start + 8) nodes
  | .got _ item nodes _ => placesFrom (start + (writeOption writeItem item).length + 8) nodes
  | _ => []

/-- The places of the stamps of a message. -/
def stampPlaces (m : Message) : List Nat :=
  placesFrom 4 [m.sender] ++ bodyPlaces (4 + (20 + (writeAddress m.sender.addr).length + 12)) m

/-- `written` is what is written again for `taken`: as long, and the same unless a stamp at one
    of the places has nanoseconds of a second or more. The places hang on where `taken` begins. -/
structure Normal (written taken : Bytes) (places : Nat → List Nat) : Prop where
  length_eq : written.length = taken.length
  eq_iff : ∀ before after, written = taken ↔
    ∀ place ∈ places before.length, nanosAt (before ++ taken ++ after) place < nanosPerSecond

theorem Normal.same (bs : Bytes) : Normal bs bs fun _ => [] where
  length_eq := rfl
  eq_iff _ _ := by simp

theorem Normal.append {w w' t t' : Bytes} {places places' : Nat → List Nat}
    (h : Normal w t places) (h' : Normal w' t' places') :
    Normal (w ++ w') (t ++ t') fun n => places n ++ places' (n + t.length) where
  length_eq := by simp [h.length_eq, h'.length_eq]
  eq_iff before after := by
    have hfirst := h.eq_iff before (t' ++ after)
    have hsecond := h'.eq_iff (before ++ t) after
    have hbs : before ++ (t ++ t') ++ after = before ++ t ++ (t' ++ after) := by simp
    have hbs' : before ++ t ++ t' ++ after = before ++ t ++ (t' ++ after) := by simp
    rw [List.length_append, hbs'] at hsecond
    rw [List.append_eq_append_iff_of_size_eq_left h.length_eq, hfirst, hsecond, hbs]
    simp only [List.forall_mem_append]

theorem nanosAt_stamp (before after : Bytes) (seconds nanos : Nat) (h : nanos < Bytes.span 4) :
    nanosAt (before ++ (writeWord seconds ++ Bytes.littleEndian 4 nanos) ++ after) before.length =
      nanos := by
  have hbs : before ++ (writeWord seconds ++ Bytes.littleEndian 4 nanos) ++ after =
      (before ++ writeWord seconds) ++ (Bytes.littleEndian 4 nanos ++ after) := by simp
  have hplace : before.length + 8 = (before ++ writeWord seconds).length := by simp [writeWord]
  rw [nanosAt, hbs, hplace, List.drop_left, List.take_left' (Bytes.length_littleEndian 4 nanos),
    Bytes.ofLittleEndian_littleEndian, Nat.mod_eq_of_lt h]

theorem stampOf_eq_ok {seconds nanos : Nat} {s : Stamp} : stampOf seconds nanos = .ok s ↔
    seconds + nanos / nanosPerSecond < 2 ^ 63 ∧
      s.seconds = Int64.ofInt (seconds + nanos / nanosPerSecond : Nat) ∧
      s.nanos.val = nanos % nanosPerSecond := by
  unfold stampOf
  have hsize : UInt64.size = 2 ^ 64 := rfl
  have hpow : Nat.pow 2 63 = 2 ^ 63 := rfl
  dsimp only
  split
  · constructor
    · intro h
      cases h
    · intro h
      omega
  · split
    · constructor
      · intro h
        cases h
      · intro h
        omega
    · obtain ⟨whole, part⟩ := s
      simp only [Except.ok.injEq, Stamp.mk.injEq, Fin.ext_iff]
      constructor
      · rintro ⟨hwhole, hpart⟩
        exact ⟨by omega, hwhole.symm, hpart.symm⟩
      · rintro ⟨-, hwhole, hpart⟩
        exact ⟨hwhole.symm, hpart.symm⟩

/-- The stamp of some octets is written with the carry made. -/
theorem StampForm.normal {s : Stamp} {bs : Bytes} (h : StampForm s bs) :
    ∃ written, writeStamp s = .ok written ∧ Normal written bs fun n => [n] := by
  obtain ⟨seconds, nanos, hseconds, hnanos, hs, rfl⟩ := h
  obtain ⟨hrange, hwhole, hpart⟩ := stampOf_eq_ok.1 hs
  have hint : s.seconds.toInt = (seconds + nanos / nanosPerSecond : Nat) := by
    have hnonneg := Int.natCast_nonneg (seconds + nanos / nanosPerSecond)
    rw [hwhole, Int64.toInt_ofInt_of_le] <;> omega
  have hnonneg : ¬ s.seconds < 0 := by
    rw [Int64.lt_iff_toInt_lt, hint]
    exact Int.not_lt.2 (Int.natCast_nonneg _)
  refine ⟨_, if_neg hnonneg, ?_, fun before after => ?_⟩
  · simp [writeWord]
  · rw [hint, Int.toNat_natCast, hpart]
    simp only [List.mem_singleton, forall_eq]
    rw [nanosAt_stamp before after seconds nanos hnanos]
    constructor
    · intro heq
      have hlow := List.append_inj_right heq (by simp [writeWord])
      have hback := congrArg Bytes.ofLittleEndian hlow
      have hmod := Nat.lt_of_le_of_lt (Nat.mod_le nanos nanosPerSecond) hnanos
      rw [Bytes.ofLittleEndian_littleEndian, Bytes.ofLittleEndian_littleEndian,
        Nat.mod_eq_of_lt hmod, Nat.mod_eq_of_lt hnanos] at hback
      exact hback ▸ Nat.mod_lt nanos (by decide)
    · intro hlt
      rw [Nat.div_eq_of_lt hlt, Nat.mod_eq_of_lt hlt, Nat.add_zero]

theorem PeerForm.normal {p : Peer} {bs : Bytes} (h : PeerForm p bs) :
    ∃ written, writePeer p = .ok written ∧ Normal written bs (placesFrom · [p]) := by
  obtain ⟨-, seen, hseen, rfl⟩ := h
  obtain ⟨written, hwritten, hnormal⟩ := hseen.normal
  refine ⟨_, by rw [writePeer, hwritten]; rfl, ?_⟩
  have hwhole := (Normal.same (p.id.octets.toList ++ writeAddress p.addr)).append hnormal
  have hid := p.id.octets.length_eq
  have hplaces : (fun n => [] ++ [n + (p.id.octets.toList ++ writeAddress p.addr).length]) =
      (placesFrom · [p]) := by
    funext n
    simp [placesFrom, hid, Nat.add_assoc]
  exact hplaces ▸ hwhole

theorem PeerForm.length {p : Peer} {bs : Bytes} (h : PeerForm p bs) :
    bs.length = 20 + (writeAddress p.addr).length + 12 := by
  obtain ⟨-, _, ⟨_, _, -, -, -, rfl⟩, rfl⟩ := h
  have hid := p.id.octets.length_eq
  simp [writeWord, hid, Nat.add_assoc]

theorem PartsForm.normal {ps : List Peer} {bs : Bytes} (h : PartsForm PeerForm ps bs) :
    ∃ parts, ps.mapM writePeer = .ok parts ∧ Normal parts.flatten bs (placesFrom · ps) := by
  induction ps generalizing bs with
  | nil =>
    cases h
    exact ⟨[], rfl, .same []⟩
  | cons p others ih =>
    obtain ⟨first, rest, hfirst, hrest, rfl⟩ := h
    obtain ⟨written, hwritten, hnormal⟩ := hfirst.normal
    obtain ⟨parts, hparts, hnormals⟩ := ih hrest
    refine ⟨written :: parts, by rw [List.mapM_cons, hwritten, hparts]; rfl, ?_⟩
    have hwhole := hnormal.append hnormals
    have hplaces : (fun n => placesFrom n [p] ++ placesFrom (n + first.length) others) =
        (placesFrom · (p :: others)) := by
      funext n
      simp [placesFrom, hfirst.length, Nat.add_assoc]
    exact hplaces ▸ hwhole

theorem PeersForm.normal {ps : List Peer} {bs : Bytes} (h : PeersForm ps bs) :
    ∃ written, writePeers ps = .ok written ∧ Normal written bs fun n => placesFrom (n + 8) ps := by
  obtain ⟨-, _, hparts, rfl⟩ := h
  obtain ⟨parts, hwritten, hnormal⟩ := hparts.normal
  refine ⟨_, by rw [writePeers, hwritten]; rfl, ?_⟩
  have hwhole := (Normal.same (writeWord ps.length)).append hnormal
  simpa [writeWord] using hwhole

/-- What a message says besides its sender and its number. -/
def writeBody : Message → Except WriteError Bytes
  | .ping .. | .pong .. => .ok []
  | .findNode _ target _ => .ok target.octets.toList
  | .foundNodes _ nodes _ => writePeers nodes
  | .get _ target known _ => .ok (target.octets.toList ++ writeOption writeSequence known)
  | .got _ item nodes _ => (writePeers nodes).map (writeOption writeItem item ++ ·)
  | .put _ item _ => .ok (writeItem item)
  | .stored _ success error _ => .ok (writeFlag success ++ writeOption writeText error)

theorem write_of_parts {m : Message} {sender body : Bytes}
    (hsender : writePeer m.sender = .ok sender) (hbody : writeBody m = .ok body) :
    write m = .ok (writeTag (tag m) ++ sender ++ body ++ writeWord m.id.toNat) := by
  cases m with
  | foundNodes s nodes i =>
    simp only [Message.sender, writeBody] at hsender hbody
    simp [write, hsender, hbody, bind, Except.bind, pure, Except.pure, tag, Message.id]
  | got s item nodes i =>
    cases hnodes : writePeers nodes with
    | error e => simp [writeBody, hnodes, Except.map] at hbody
    | ok named =>
      simp only [Message.sender, writeBody, hnodes] at hsender hbody
      cases hbody
      simp [write, hsender, hnodes, bind, Except.bind, pure, Except.pure, tag, Message.id]
  | _ =>
    simp only [Message.sender, writeBody] at hsender hbody
    cases hbody
    simp [write, hsender, bind, Except.bind, pure, Except.pure, tag, Message.id]

theorem BodyForm.normal {m : Message} {bs : Bytes} (h : BodyForm m bs) :
    ∃ written, writeBody m = .ok written ∧ Normal written bs (bodyPlaces · m) := by
  cases m with
  | foundNodes s nodes i => exact PeersForm.normal h
  | got s item nodes i =>
    obtain ⟨-, named, hnodes, rfl⟩ := h
    obtain ⟨written, hwritten, hnormal⟩ := hnodes.normal
    refine ⟨_, by rw [writeBody, hwritten]; rfl, ?_⟩
    have hwhole := (Normal.same (writeOption writeItem item)).append hnormal
    simpa [bodyPlaces] using hwhole
  | put s item i =>
    obtain ⟨-, rfl⟩ := h
    exact ⟨_, rfl, .same _⟩
  | stored s success error i =>
    obtain ⟨-, rfl⟩ := h
    exact ⟨_, rfl, .same _⟩
  | _ =>
    cases h
    exact ⟨_, rfl, .same _⟩

theorem MessageForm.normal {m : Message} {bs : Bytes} (h : MessageForm m bs) :
    ∃ written, write m = .ok written ∧ Normal written bs fun n =>
      placesFrom (n + 4) [m.sender] ++
        bodyPlaces (n + (4 + (20 + (writeAddress m.sender.addr).length + 12))) m := by
  obtain ⟨sender, body, hsender, hbody, rfl⟩ := h
  obtain ⟨peer, hpeer, hpeers⟩ := hsender.normal
  obtain ⟨written, hwritten, hnormal⟩ := hbody.normal
  refine ⟨_, write_of_parts hpeer hwritten, ?_⟩
  have hwhole := (((Normal.same (writeTag (tag m))).append hpeers).append hnormal).append
    (Normal.same (writeWord m.id.toNat))
  simpa [writeTag, hsender.length, Nat.add_assoc] using hwhole

/-! ## What the layout can carry -/

theorem StampForm.of_writeStamp {s : Stamp} (h : 0 ≤ s.seconds) :
    ∃ bs, writeStamp s = .ok bs ∧ StampForm s bs := by
  have hint : 0 ≤ s.seconds.toInt := by simpa using Int64.le_iff_toInt_le.1 h
  have hmax := s.seconds.toInt_lt
  have hnanos := s.nanos.isLt
  have hword : Bytes.span 8 = 2 ^ 64 := by decide
  have hpart : Bytes.span 4 = 2 ^ 32 := by decide
  have hper : nanosPerSecond = 10 ^ 9 := rfl
  have hnonneg : ¬ s.seconds < 0 := by
    rw [Int64.lt_iff_toInt_lt]
    simpa using hint
  refine ⟨_, if_neg hnonneg, _, s.nanos.val, by omega, by omega, ?_, rfl⟩
  rw [stampOf_eq_ok, Nat.div_eq_of_lt hnanos, Nat.mod_eq_of_lt hnanos, Nat.add_zero,
    Int.toNat_of_nonneg hint, Int64.ofInt_toInt]
  exact ⟨by omega, rfl, rfl⟩

end Codec

/-- Whether the layout can carry a peer: seen not before 1970, under an address that is bare. -/
def Peer.IsWritable (p : Peer) : Prop := 0 ≤ p.lastSeen.seconds ∧ p.addr.IsBare

/-- The peers that a message names, its sender first. -/
def Message.peers : Message → List Peer
  | .foundNodes s nodes _ | .got s _ nodes _ => s :: nodes
  | m => [m.sender]

/-- Whether a word can tell each length in a message. No memory holds a list that is longer. -/
def Message.FitsWords : Message → Prop
  | .foundNodes _ nodes _ => nodes.length < Bytes.span 8
  | .got _ item nodes _ => (∀ i ∈ item, i.FitsWords) ∧ nodes.length < Bytes.span 8
  | .put _ item _ => item.FitsWords
  | .stored _ _ error _ => ∀ text ∈ error, (Bytes.ofText text).length < Bytes.span 8
  | _ => True

namespace Codec

theorem PeerForm.of_isWritable {p : Peer} (h : p.IsWritable) :
    ∃ bs, writePeer p = .ok bs ∧ PeerForm p bs := by
  obtain ⟨seen, hseen, hform⟩ := StampForm.of_writeStamp h.1
  exact ⟨_, by rw [writePeer, hseen]; rfl, h.2, seen, hform, rfl⟩

theorem PartsForm.of_isWritable {ps : List Peer} (h : ∀ p ∈ ps, p.IsWritable) :
    ∃ parts, ps.mapM writePeer = .ok parts ∧ PartsForm PeerForm ps parts.flatten := by
  induction ps with
  | nil => exact ⟨[], rfl, rfl⟩
  | cons p others ih =>
    rw [List.forall_mem_cons] at h
    obtain ⟨bs, hbs, hform⟩ := PeerForm.of_isWritable h.1
    obtain ⟨parts, hparts, hforms⟩ := ih h.2
    exact ⟨bs :: parts, by rw [List.mapM_cons, hbs, hparts]; rfl, bs, _, hform, hforms, rfl⟩

theorem PeersForm.of_isWritable {ps : List Peer} (h : ∀ p ∈ ps, p.IsWritable)
    (hlength : ps.length < Bytes.span 8) : ∃ bs, writePeers ps = .ok bs ∧ PeersForm ps bs := by
  obtain ⟨parts, hparts, hforms⟩ := PartsForm.of_isWritable h
  exact ⟨_, by rw [writePeers, hparts]; rfl, hlength, _, hforms, rfl⟩

theorem BodyForm.of_isWritable {m : Message} (h : ∀ p ∈ m.peers, p.IsWritable)
    (hfits : m.FitsWords) : ∃ bs, writeBody m = .ok bs ∧ BodyForm m bs := by
  cases m with
  | foundNodes s nodes i =>
    exact PeersForm.of_isWritable (fun p hp => h p (List.mem_cons_of_mem _ hp)) hfits
  | got s item nodes i =>
    obtain ⟨named, hnamed, hform⟩ :=
      PeersForm.of_isWritable (fun p hp => h p (List.mem_cons_of_mem _ hp)) hfits.2
    exact ⟨_, by rw [writeBody, hnamed]; rfl, hfits.1, named, hform, rfl⟩
  | put s item i => exact ⟨_, rfl, hfits, rfl⟩
  | stored s success error i => exact ⟨_, rfl, hfits, rfl⟩
  | _ => exact ⟨_, rfl, rfl⟩

theorem sender_mem_peers (m : Message) : m.sender ∈ m.peers := by
  cases m <;> simp [Message.peers, Message.sender]

/-- What can be carried is written in a form of the message. -/
theorem MessageForm.of_isWritable {m : Message} (h : ∀ p ∈ m.peers, p.IsWritable)
    (hfits : m.FitsWords) : ∃ bs, write m = .ok bs ∧ MessageForm m bs := by
  obtain ⟨sender, hsender, hpeer⟩ := PeerForm.of_isWritable (h _ (sender_mem_peers m))
  obtain ⟨body, hbody, hform⟩ := BodyForm.of_isWritable h hfits
  exact ⟨_, write_of_parts hsender hbody, sender, body, hpeer, hform, rfl⟩

theorem StampForm.nonneg {s : Stamp} {bs : Bytes} (h : StampForm s bs) : 0 ≤ s.seconds := by
  obtain ⟨seconds, nanos, -, -, hs, -⟩ := h
  obtain ⟨hrange, hwhole, -⟩ := stampOf_eq_ok.1 hs
  have hnonneg := Int.natCast_nonneg (seconds + nanos / nanosPerSecond)
  rw [Int64.le_iff_toInt_le, hwhole, Int64.toInt_ofInt_of_le (by omega) (by omega)]
  exact hnonneg

theorem PeerForm.isWritable {p : Peer} {bs : Bytes} (h : PeerForm p bs) : p.IsWritable := by
  obtain ⟨hbare, _, hseen, -⟩ := h
  exact ⟨hseen.nonneg, hbare⟩

theorem PartsForm.isWritable {ps : List Peer} {bs : Bytes} (h : PartsForm PeerForm ps bs) :
    ∀ p ∈ ps, p.IsWritable := by
  induction ps generalizing bs with
  | nil => simp
  | cons p others ih =>
    obtain ⟨_, _, hfirst, hrest, -⟩ := h
    exact List.forall_mem_cons.2 ⟨hfirst.isWritable, ih hrest⟩

/-- What was read can be carried. -/
theorem MessageForm.isWritable {m : Message} {bs : Bytes} (h : MessageForm m bs) :
    ∀ p ∈ m.peers, p.IsWritable := by
  obtain ⟨_, _, hsender, hbody, -⟩ := h
  cases m with
  | foundNodes s nodes i =>
    obtain ⟨-, _, hparts, -⟩ := hbody
    exact List.forall_mem_cons.2 ⟨hsender.isWritable, hparts.isWritable⟩
  | got s item nodes i =>
    obtain ⟨-, _, ⟨-, _, hparts, -⟩, -⟩ := hbody
    exact List.forall_mem_cons.2 ⟨hsender.isWritable, hparts.isWritable⟩
  | _ => exact List.forall_mem_singleton.2 hsender.isWritable

theorem MessageForm.fitsWords {m : Message} {bs : Bytes} (h : MessageForm m bs) :
    m.FitsWords := by
  obtain ⟨_, _, -, hbody, -⟩ := h
  cases m with
  | foundNodes s nodes i => exact hbody.1
  | got s item nodes i =>
    obtain ⟨hitem, _, ⟨hlength, -⟩, -⟩ := hbody
    exact ⟨hitem, hlength⟩
  | put s item i => exact hbody.1
  | stored s success error i => exact hbody.1
  | _ => trivial

theorem read_eq_ok {bs : Bytes} {m : Message} :
    read bs = .ok m ↔ ∃ rest, readMessage.run bs = .ok (m, rest) := by
  rw [read]
  cases readMessage.run bs with
  | error e => simp [Functor.map, Except.map]
  | ok found =>
    obtain ⟨a, left⟩ := found
    simp [Functor.map, Except.map]

theorem MessageForm.read {m : Message} {bs : Bytes} (h : MessageForm m bs) (rest : Bytes) :
    read (bs ++ rest) = .ok m :=
  read_eq_ok.2 ⟨rest, (takes_readMessage _ _ _).2 ⟨bs, h, rfl⟩⟩

/-- A message whose peers the layout can carry is written, and read back from that with anything
    behind it. A message that is read is written in as many octets as were taken, which read as the
    message again and are those that were taken just when each stamp among these has nanoseconds
    of less than a second. -/
theorem messages_read_back :
    (∀ m : Message, (∀ p ∈ m.peers, p.IsWritable) → m.FitsWords →
      ∀ rest, ∃ bs, write m = .ok bs ∧ read (bs ++ rest) = .ok m) ∧
    ∀ bs m, read bs = .ok m → ∃ taken rest written,
      readMessage.run bs = .ok (m, rest) ∧ bs = taken ++ rest ∧
      write m = .ok written ∧ written.length = taken.length ∧ read written = .ok m ∧
      (written = taken ↔ ∀ place ∈ stampPlaces m, nanosAt bs place < nanosPerSecond) := by
  constructor
  · intro m hpeers hfits rest
    obtain ⟨bs, hbs, hform⟩ := MessageForm.of_isWritable hpeers hfits
    exact ⟨bs, hbs, hform.read rest⟩
  · intro bs m hread
    obtain ⟨rest, hrun⟩ := read_eq_ok.1 hread
    obtain ⟨taken, htaken, rfl⟩ := (takes_readMessage _ _ _).1 hrun
    obtain ⟨written, hwritten, hnormal⟩ := htaken.normal
    obtain ⟨bs, hbs, hform⟩ := MessageForm.of_isWritable htaken.isWritable htaken.fitsWords
    obtain rfl : bs = written := Except.ok.inj (hbs.symm.trans hwritten)
    have hback := hform.read []
    rw [List.append_nil] at hback
    have heq := hnormal.eq_iff [] rest
    simp only [List.nil_append, List.length_nil, Nat.zero_add] at heq
    exact ⟨taken, rest, bs, hrun, rfl, hwritten, hnormal.length_eq, hback, heq⟩

/-- The address of a sender. -/
def sampleHost : Address := .v4 ⟨[10, 0, 0, 7], rfl⟩ 6881

/-- An answer that names a node under an IPv6 address. -/
def sampleAnswer : Message :=
  .got ⟨7, sampleHost, .ofNanos 5000000007⟩ (some ⟨[1, 2], none, some [3], some (-1), []⟩)
    [⟨9, .v6 ⟨List.replicate 16 1, rfl⟩ 6881 0 0, .ofNanos 5999999999⟩] 3

/-- A ping, seen at six seconds. -/
def samplePing : Message := .ping ⟨7, sampleHost, .ofNanos 6000000000⟩ 12

/-- The ping with a second among its nanoseconds, and one octet behind it. -/
def carriedPing : Bytes :=
  writeTag 0 ++ (7 : NodeId).octets.toList ++ writeAddress sampleHost ++ writeWord 5 ++
    Bytes.littleEndian 4 nanosPerSecond ++ writeWord 12 ++ [255]

theorem messages_read_back_of_samples :
    (∃ bs, write sampleAnswer = .ok bs ∧ read (bs ++ [1, 2, 3]) = .ok sampleAnswer) ∧
    ∃ taken rest written, readMessage.run carriedPing = .ok (samplePing, rest) ∧
      carriedPing = taken ++ rest ∧ write samplePing = .ok written ∧
      written.length = taken.length ∧ read written = .ok samplePing ∧ written ≠ taken := by
  constructor
  · refine messages_read_back.1 sampleAnswer ?_ ?_ _
    · have hseen : 0 ≤ (Stamp.ofNanos 5000000007).seconds ∧
          0 ≤ (Stamp.ofNanos 5999999999).seconds := by decide
      simpa [sampleAnswer, sampleHost, Message.peers, Peer.IsWritable, Address.IsBare] using hseen
    · have hspan : Bytes.span 8 = 2 ^ 64 := by decide
      refine ⟨fun i hi => ?_, by rw [hspan]; decide⟩
      obtain rfl := Option.mem_some_iff.1 hi
      exact ⟨by simp [hspan], by simp [hspan], by simp [hspan]⟩
  · have hread : read carriedPing = .ok samplePing := by rfl
    obtain ⟨taken, rest, written, hrun, hbs, hwrite, hlength, hback, hsame⟩ :=
      messages_read_back.2 carriedPing samplePing hread
    refine ⟨taken, rest, written, hrun, hbs, hwrite, hlength, hback, fun h => ?_⟩
    have hlate : nanosAt carriedPing 34 = nanosPerSecond := by rfl
    have hearly := hsame.1 h 34 (by decide)
    omega

end Codec

end SignedRecords
