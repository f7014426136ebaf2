import SignedRecords.Proofs.Readers

/-!
# The forms of a message

The octets that are read as a message, part for part. Addresses and items have one form each. A
stamp has several: its nanoseconds may be those of a second or more.
-/

namespace SignedRecords

/-- Whether an address carries nothing that its layout leaves out. -/
def Address.IsBare : Address → Prop
  | .v4 .. => True
  | .v6 _ _ flow scope => flow = 0 ∧ scope = 0

/-- Whether a word can tell each length of an item. -/
structure Item.FitsWords (i : Item) : Prop where
  value : i.value.length < Bytes.span 8
  signature : ∀ s ∈ i.signature, s.length < Bytes.span 8
  salt : i.salt.length < Bytes.span 8

namespace Codec

/-! ## Addresses -/

theorem takes_readPort : TakesWritten (readNumber 2) (· < UInt16.size) (Bytes.littleEndian 2) :=
  takes_readNumber 2

/-- An address of either kind: the host's octets and the port. -/
theorem takes_host {width : Nat} (make : Octets width → UInt16 → Address) :
    Takes (do
        let ip ← takeOctets width
        let port ← readNumber 2
        return make ip (UInt16.ofNat port) : Reader Address)
      fun a bs => ∃ ip port, a = make ip port ∧
        bs = ip.toList ++ Bytes.littleEndian 2 port.toNat := by
  refine ((takes_takeOctets width).bind fun ip _ => takes_readPort.bind fun port _ =>
    takes_pure (make ip (UInt16.ofNat port))).congr fun a bs => ?_
  constructor
  · rintro ⟨ip, -, _, ⟨port, hport, _, ⟨rfl, rfl⟩, rfl⟩, rfl⟩
    exact ⟨ip, _, rfl, by rw [UInt16.toNat_ofNat_of_lt' hport, List.append_nil]⟩
  · rintro ⟨ip, port, rfl, rfl⟩
    exact ⟨ip, trivial, _, ⟨port.toNat, port.toNat_lt, [], ⟨by rw [UInt16.ofNat_toNat], rfl⟩,
      (List.append_nil _).symm⟩, rfl⟩

theorem takes_readAddress : TakesWritten readAddress Address.IsBare writeAddress := by
  refine ((takes_readNumber 4).bind (G := fun n a bs =>
    (n = 0 ∧ ∃ ip port, a = .v4 ip port ∧ bs = ip.toList ++ Bytes.littleEndian 2 port.toNat) ∨
      n = 1 ∧ ∃ ip port, a = .v6 ip port 0 0 ∧
        bs = ip.toList ++ Bytes.littleEndian 2 port.toNat) fun n _ => ?_).congr fun a bs => ?_
  · split
    · exact (takes_host .v4).congr fun a bs => by simp
    · exact (takes_host (.v6 · · 0 0)).congr fun a bs => by simp
    · rename_i hzero hone
      exact takes_throw _ fun a bs h => h.elim (fun h => hzero h.1) fun h => hone h.1
  · constructor
    · rintro ⟨n, -, _, ⟨rfl, ip, port, rfl, rfl⟩ | ⟨rfl, ip, port, rfl, rfl⟩, rfl⟩
      · exact ⟨trivial, (List.append_assoc _ _ _).symm⟩
      · exact ⟨⟨rfl, rfl⟩, (List.append_assoc _ _ _).symm⟩
    · rintro ⟨hbare, rfl⟩
      cases a with
      | v4 ip port =>
        exact ⟨0, by decide, _, .inl ⟨rfl, ip, port, rfl, rfl⟩, List.append_assoc _ _ _⟩
      | v6 ip port flow scope =>
        obtain ⟨rfl, rfl⟩ := hbare
        exact ⟨1, by decide, _, .inr ⟨rfl, ip, port, rfl, rfl⟩, List.append_assoc _ _ _⟩

theorem takes_readItem : TakesWritten readItem Item.FitsWords writeItem := by
  refine (takes_readOctets.bind fun value _ => (takes_takeOctets 32).option.bind fun key _ =>
    takes_readOctets.option.bind fun signature _ => takes_readSequence.option.bind fun seq _ =>
    takes_readOctets.bind fun salt _ =>
    takes_pure (Item.mk value key signature seq salt)).congr fun i bs => ?_
  constructor
  · rintro ⟨value, hvalue, _, ⟨key, -, _, ⟨signature, hsignature, _, ⟨seq, -, _,
      ⟨salt, hsalt, _, ⟨rfl, rfl⟩, rfl⟩, rfl⟩, rfl⟩, rfl⟩, rfl⟩
    exact ⟨⟨hvalue, hsignature, hsalt⟩, by simp [writeItem]⟩
  · rintro ⟨⟨hvalue, hsignature, hsalt⟩, rfl⟩
    exact ⟨_, hvalue, _, ⟨_, fun _ _ => trivial, _, ⟨_, hsignature, _, ⟨_, fun _ _ => trivial, _,
      ⟨_, hsalt, [], ⟨rfl, rfl⟩, rfl⟩, rfl⟩, rfl⟩, rfl⟩, by simp [writeItem]⟩

/-! ## Stamps and peers -/

/-- Octets that stand for a stamp. -/
def StampForm (s : Stamp) (bs : Bytes) : Prop :=
  ∃ seconds nanos, seconds < Bytes.span 8 ∧ nanos < Bytes.span 4 ∧
    stampOf seconds nanos = .ok s ∧ bs = writeWord seconds ++ Bytes.littleEndian 4 nanos

theorem takes_readStamp : Takes readStamp StampForm := by
  have hnext : ∀ seconds nanos,
      Takes (stampOf seconds nanos : Reader Stamp) fun s bs =>
        stampOf seconds nanos = .ok s ∧ bs = [] := by
    intro seconds nanos
    cases h : stampOf seconds nanos with
    | ok s =>
      exact (takes_pure s).congr fun x bs => by simp [eq_comm]
    | error e => exact takes_throw e fun s bs => by simp
  refine (takes_readWord.bind fun seconds _ => (takes_readNumber 4).bind fun nanos _ =>
    hnext seconds nanos).congr fun s bs => ?_
  constructor
  · rintro ⟨seconds, hseconds, _, ⟨nanos, hnanos, _, ⟨hs, rfl⟩, rfl⟩, rfl⟩
    exact ⟨seconds, nanos, hseconds, hnanos, hs, by rw [List.append_nil]⟩
  · rintro ⟨seconds, nanos, hseconds, hnanos, hs, rfl⟩
    exact ⟨seconds, hseconds, _, ⟨nanos, hnanos, [], ⟨hs, rfl⟩, (List.append_nil _).symm⟩, rfl⟩

/-- Octets that stand for a peer. -/
def PeerForm (p : Peer) (bs : Bytes) : Prop :=
  p.addr.IsBare ∧ ∃ seen, StampForm p.lastSeen seen ∧
    bs = p.id.octets.toList ++ writeAddress p.addr ++ seen

theorem takes_readPeer : Takes readPeer PeerForm := by
  refine (takes_readId.bind fun id _ => takes_readAddress.bind fun addr _ =>
    takes_readStamp.bind fun seen _ _ => takes_pure (Peer.mk id addr seen)).congr fun p bs => ?_
  constructor
  · rintro ⟨id, -, _, ⟨addr, haddr, _, ⟨seen, _, hseen, _, ⟨rfl, rfl⟩, rfl⟩, rfl⟩, rfl⟩
    exact ⟨haddr, _, hseen, by rw [List.append_nil, List.append_assoc]⟩
  · rintro ⟨haddr, _, hseen, rfl⟩
    exact ⟨_, trivial, _, ⟨_, haddr, _, ⟨_, _, hseen, [], ⟨rfl, rfl⟩, rfl⟩, rfl⟩, by
      rw [List.append_nil, List.append_assoc]⟩

/-- Octets that stand for peers after their number. -/
def PeersForm (ps : List Peer) (bs : Bytes) : Prop :=
  ps.length < Bytes.span 8 ∧ ∃ parts, PartsForm PeerForm ps parts ∧
    bs = writeWord ps.length ++ parts

theorem takes_readPeers : Takes readPeers PeersForm := by
  refine (takes_readWord.bind fun n _ => takes_readPeer.many n).congr fun ps bs => ?_
  constructor
  · rintro ⟨n, hn, parts, ⟨rfl, hparts⟩, rfl⟩
    exact ⟨hn, parts, hparts, rfl⟩
  · rintro ⟨hn, parts, hparts, rfl⟩
    exact ⟨_, hn, parts, ⟨rfl, hparts⟩, rfl⟩

/-! ## Messages -/

/-- The number of a message's kind. -/
def tag : Message → Nat
  | .ping .. => 0
  | .pong .. => 1
  | .findNode .. => 2
  | .foundNodes .. => 3
  | .get .. => 4
  | .got .. => 5
  | .put .. => 6
  | .stored .. => 7

/-- Octets that stand for what a message says besides its sender and its number. -/
def BodyForm : Message → Bytes → Prop
  | .ping _ _, bs | .pong _ _, bs => bs = []
  | .findNode _ target _, bs => bs = target.octets.toList
  | .foundNodes _ nodes _, bs => PeersForm nodes bs
  | .get _ target known _, bs =>
    bs = target.octets.toList ++ writeOption writeSequence known
  | .got _ item nodes _, bs =>
    (∀ i ∈ item, i.FitsWords) ∧ ∃ named, PeersForm nodes named ∧
      bs = writeOption writeItem item ++ named
  | .put _ item _, bs => item.FitsWords ∧ bs = writeItem item
  | .stored _ success error _, bs =>
    (∀ text ∈ error, (Bytes.ofText text).length < Bytes.span 8) ∧
      bs = writeFlag success ++ writeOption writeText error

/-- Octets that stand for a message. -/
def MessageForm (m : Message) (bs : Bytes) : Prop :=
  ∃ sender body, PeerForm m.sender sender ∧ BodyForm m body ∧
    bs = writeTag (tag m) ++ sender ++ body ++ writeWord m.id.toNat

/-- What follows the sender in a message of a kind. -/
def RestForm (t : Nat) (sender : Peer) (m : Message) (bs : Bytes) : Prop :=
  t = tag m ∧ sender = m.sender ∧ ∃ body, BodyForm m body ∧ bs = body ++ writeWord m.id.toNat

/-- A number at the end of a message whose body was read. -/
theorem takes_id (make : UInt64 → Message) : Takes (do return make (← readMessageId))
    fun m bs => ∃ i, m = make i ∧ bs = writeWord i.toNat := by
  refine (map_eq_pure_bind make readMessageId ▸ takes_readMessageId.map make).congr fun m bs => ?_
  simp only [true_and]

theorem takes_readRest (t : Nat) (sender : Peer) : Takes (readRest t sender)
    (RestForm t sender) := by
  unfold readRest
  split
  · refine (takes_id (.ping sender)).congr fun m bs => ?_
    constructor
    · rintro ⟨i, rfl, rfl⟩
      exact ⟨rfl, rfl, [], rfl, rfl⟩
    · rintro ⟨htag, rfl, _, hbody, rfl⟩
      cases m with
      | ping _ i =>
        cases hbody
        exact ⟨i, rfl, rfl⟩
      | _ => cases htag
  · refine (takes_id (.pong sender)).congr fun m bs => ?_
    constructor
    · rintro ⟨i, rfl, rfl⟩
      exact ⟨rfl, rfl, [], rfl, rfl⟩
    · rintro ⟨htag, rfl, _, hbody, rfl⟩
      cases m with
      | pong _ i =>
        cases hbody
        exact ⟨i, rfl, rfl⟩
      | _ => cases htag
  · refine (takes_readId.bind fun target _ => takes_id (.findNode sender target)).congr
      fun m bs => ?_
    constructor
    · rintro ⟨target, -, _, ⟨i, rfl, rfl⟩, rfl⟩
      exact ⟨rfl, rfl, _, rfl, rfl⟩
    · rintro ⟨htag, rfl, _, hbody, rfl⟩
      cases m with
      | findNode _ target i =>
        cases hbody
        exact ⟨target, trivial, _, ⟨i, rfl, rfl⟩, rfl⟩
      | _ => cases htag
  · refine (takes_readPeers.bind fun nodes _ _ => takes_id (.foundNodes sender nodes)).congr
      fun m bs => ?_
    constructor
    · rintro ⟨nodes, body, hnodes, _, ⟨i, rfl, rfl⟩, rfl⟩
      exact ⟨rfl, rfl, body, hnodes, rfl⟩
    · rintro ⟨htag, rfl, body, hbody, rfl⟩
      cases m with
      | foundNodes _ nodes i => exact ⟨nodes, body, hbody, _, ⟨i, rfl, rfl⟩, rfl⟩
      | _ => cases htag
  · refine (takes_readId.bind fun target _ => takes_readSequence.option.bind fun known _ =>
      takes_id (.get sender target known)).congr fun m bs => ?_
    constructor
    · rintro ⟨target, -, _, ⟨known, -, _, ⟨i, rfl, rfl⟩, rfl⟩, rfl⟩
      exact ⟨rfl, rfl, _, rfl, (List.append_assoc _ _ _).symm⟩
    · rintro ⟨htag, rfl, _, hbody, rfl⟩
      cases m with
      | get _ target known i =>
        cases hbody
        exact ⟨target, trivial, _, ⟨known, fun _ _ => trivial, _, ⟨i, rfl, rfl⟩, rfl⟩,
          List.append_assoc _ _ _⟩
      | _ => cases htag
  · refine (takes_readItem.option.bind fun item _ => takes_readPeers.bind fun nodes _ _ =>
      takes_id (.got sender item nodes)).congr fun m bs => ?_
    constructor
    · rintro ⟨item, hitem, _, ⟨nodes, named, hnodes, _, ⟨i, rfl, rfl⟩, rfl⟩, rfl⟩
      exact ⟨rfl, rfl, _, ⟨hitem, named, hnodes, rfl⟩, (List.append_assoc _ _ _).symm⟩
    · rintro ⟨htag, rfl, _, hbody, rfl⟩
      cases m with
      | got _ item nodes i =>
        obtain ⟨hitem, named, hnodes, rfl⟩ := hbody
        exact ⟨item, hitem, _, ⟨nodes, named, hnodes, _, ⟨i, rfl, rfl⟩, rfl⟩,
          List.append_assoc _ _ _⟩
      | _ => cases htag
  · refine (takes_readItem.bind fun item _ => takes_id (.put sender item)).congr fun m bs => ?_
    constructor
    · rintro ⟨item, hitem, _, ⟨i, rfl, rfl⟩, rfl⟩
      exact ⟨rfl, rfl, _, ⟨hitem, rfl⟩, rfl⟩
    · rintro ⟨htag, rfl, _, hbody, rfl⟩
      cases m with
      | put _ item i =>
        obtain ⟨hitem, rfl⟩ := hbody
        exact ⟨item, hitem, _, ⟨i, rfl, rfl⟩, rfl⟩
      | _ => cases htag
  · refine (takes_readFlag.bind fun success _ => takes_readText.option.bind fun error _ =>
      takes_id (.stored sender success error)).congr fun m bs => ?_
    constructor
    · rintro ⟨success, -, _, ⟨error, herror, _, ⟨i, rfl, rfl⟩, rfl⟩, rfl⟩
      exact ⟨rfl, rfl, _, ⟨herror, rfl⟩, (List.append_assoc _ _ _).symm⟩
    · rintro ⟨htag, rfl, _, hbody, rfl⟩
      cases m with
      | stored _ success error i =>
        obtain ⟨herror, rfl⟩ := hbody
        exact ⟨success, trivial, _, ⟨error, herror, _, ⟨i, rfl, rfl⟩, rfl⟩,
          List.append_assoc _ _ _⟩
      | _ => cases htag
  · refine takes_throw _ fun m bs => ?_
    rintro ⟨rfl, -⟩
    cases m <;> contradiction

theorem tag_lt (m : Message) : tag m < 8 := by
  cases m <;> simp [tag]

/-- The octets that read as a message are its forms. -/
theorem takes_readMessage : Takes readMessage MessageForm := by
  have hnext : ∀ t, Takes (do
        if 8 ≤ t then throw (.messageTag t)
        let sender ← readPeer
        readRest t sender)
      fun m bs => ∃ sender form, PeerForm sender form ∧ ∃ rest, RestForm t sender m rest ∧
        bs = form ++ rest := by
    intro t
    have hrest := takes_readPeer.bind fun sender _ _ => takes_readRest t sender
    split
    · rename_i hlarge
      refine takes_throw _ fun m bs => ?_
      rintro ⟨_, _, -, _, ⟨rfl, -⟩, -⟩
      exact absurd (tag_lt m) (Nat.not_lt.2 hlarge)
    · exact hrest
  refine ((takes_readNumber 4).bind fun t _ => hnext t).congr fun m bs => ?_
  constructor
  · rintro ⟨_, -, _, ⟨_, form, hsender, _, ⟨rfl, rfl, body, hbody, rfl⟩, rfl⟩, rfl⟩
    exact ⟨form, body, hsender, hbody, by simp [writeTag]⟩
  · rintro ⟨form, body, hsender, hbody, rfl⟩
    have htag : tag m < Bytes.span 4 := Nat.lt_of_lt_of_le (tag_lt m) (by decide)
    exact ⟨tag m, htag, _, ⟨_, form, hsender, _, ⟨rfl, rfl, body, hbody, rfl⟩, rfl⟩, by
      simp [writeTag]⟩

end Codec

end SignedRecords
