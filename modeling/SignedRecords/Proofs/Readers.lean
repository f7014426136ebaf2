import SignedRecords.Proofs.Codec
import SignedRecords.Proofs.Wire

/-!
# What readers take

For each reader of the message layout the octets that it takes for a value, whatever follows them:
for most what the writer writes of the value, and no other octets. What a reader built from others
takes follows from what those take.
-/

namespace SignedRecords

/-- Octets that are read as a text are its UTF-8 form. -/
theorem Utf8.ofText_of_decode {bs : Bytes} {text : String} (h : Utf8.decode bs = .ok text) :
    Bytes.ofText text = bs := by
  unfold Utf8.decode String.fromUTF8? at h
  by_cases hvalid : (⟨bs.toArray⟩ : ByteArray).IsValidUTF8
  · rw [dif_pos hvalid] at h
    cases h
    simp [Bytes.ofText, String.fromUTF8]
  · rw [dif_neg hvalid] at h
    cases h

namespace NodeId

theorem octets_ofOctets (bs : Octets 20) : (ofOctets bs).octets = bs := by
  have hlt := Bytes.ofBigEndian_lt bs.toList
  have hback := Bytes.bigEndian_ofBigEndian bs.toList
  rw [bs.length_eq] at hlt hback
  have hspan : Bytes.span 20 = 2 ^ 160 := by decide
  apply Octets.ext
  show Bytes.bigEndian 20 (BitVec.ofNat 160 (Bytes.ofBigEndian bs.toList)).toNat = bs.toList
  rw [BitVec.toNat_ofNat, Nat.mod_eq_of_lt (hspan ▸ hlt), hback]

theorem ofOctets_octets (a : NodeId) : ofOctets a.octets = a := by
  have hspan : Bytes.span 20 = 2 ^ 160 := by decide
  rw [ofOctets, octets, Bytes.ofBigEndian_bigEndian, hspan, Nat.mod_eq_of_lt a.isLt,
    BitVec.ofNat_toNat, BitVec.setWidth_eq]

end NodeId

namespace Codec

/-! ## Readers one after the other -/

variable {α β : Type}

/-- A reader takes the forms of a value, whatever follows them, and nothing else. -/
def Takes (read : Reader α) (Form : α → Bytes → Prop) : Prop :=
  ∀ bs a rest, read.run bs = .ok (a, rest) ↔ ∃ form, Form a form ∧ bs = form ++ rest

theorem run_bind_eq_ok {read : Reader α} {next : α → Reader β} {bs rest : Bytes} {b : β} :
    (read >>= next).run bs = .ok (b, rest) ↔
      ∃ a left, read.run bs = .ok (a, left) ∧ (next a).run left = .ok (b, rest) := by
  rw [StateT.run_bind]
  cases h : read.run bs with
  | error e => simp [bind, Except.bind]
  | ok found =>
    constructor
    · intro hnext
      exact ⟨found.1, found.2, rfl, hnext⟩
    · rintro ⟨a, left, ha, hnext⟩
      cases ha
      exact hnext

theorem takes_pure (a : α) : Takes (pure a : Reader α) fun x bs => x = a ∧ bs = [] := by
  intro bs x rest
  rw [StateT.run_pure]
  constructor
  · intro h
    cases h
    exact ⟨[], ⟨rfl, rfl⟩, rfl⟩
  · rintro ⟨_, ⟨rfl, rfl⟩, rfl⟩
    rfl

/-- What is refused has no forms. -/
theorem takes_throw (e : ReadError) {Form : α → Bytes → Prop} (hnone : ∀ a bs, ¬ Form a bs) :
    Takes (throw e) Form := by
  intro bs a rest
  constructor
  · intro h
    cases h
  · rintro ⟨form, h, -⟩
    exact absurd h (hnone a form)

theorem Takes.congr {read : Reader α} {F G : α → Bytes → Prop} (h : Takes read F)
    (hFG : ∀ a bs, F a bs ↔ G a bs) : Takes read G := by
  intro bs a rest
  simp only [h bs a rest, hFG]

theorem Takes.bind {read : Reader α} {next : α → Reader β} {F : α → Bytes → Prop}
    {G : α → β → Bytes → Prop} (h : Takes read F)
    (hnext : ∀ a first, F a first → Takes (next a) (G a)) :
    Takes (read >>= next) fun b bs => ∃ a first, F a first ∧ ∃ others, G a b others ∧
      bs = first ++ others := by
  intro bs b rest
  rw [run_bind_eq_ok]
  constructor
  · rintro ⟨a, left, ha, hb⟩
    obtain ⟨first, hfirst, rfl⟩ := (h _ _ _).1 ha
    obtain ⟨others, hothers, rfl⟩ := (hnext a first hfirst _ _ _).1 hb
    exact ⟨_, ⟨a, first, hfirst, others, hothers, rfl⟩, (List.append_assoc _ _ _).symm⟩
  · rintro ⟨_, ⟨a, first, hfirst, others, hothers, rfl⟩, rfl⟩
    refine ⟨a, others ++ rest, (h _ _ _).2 ⟨first, hfirst, List.append_assoc _ _ _⟩, ?_⟩
    exact (hnext a first hfirst _ _ _).2 ⟨others, hothers, rfl⟩

/-- The reader takes what the writer writes of a value with the property, and nothing else. -/
abbrev TakesWritten (read : Reader α) (P : α → Prop) (write : α → Bytes) : Prop :=
  Takes read fun a bs => P a ∧ bs = write a

theorem TakesWritten.bind {read : Reader α} {next : α → Reader β} {P : α → Prop}
    {write : α → Bytes} {G : α → β → Bytes → Prop} (h : TakesWritten read P write)
    (hnext : ∀ a, P a → Takes (next a) (G a)) :
    Takes (read >>= next) fun b bs => ∃ a, P a ∧ ∃ others, G a b others ∧
      bs = write a ++ others := by
  refine (Takes.bind h fun a _ ha => hnext a ha.1).congr fun b bs => ?_
  constructor
  · rintro ⟨a, _, ⟨ha, rfl⟩, hothers⟩
    exact ⟨a, ha, hothers⟩
  · rintro ⟨a, ha, hothers⟩
    exact ⟨a, _, ⟨ha, rfl⟩, hothers⟩

/-- A value that is made of one that was read. -/
theorem TakesWritten.map {read : Reader α} {P : α → Prop} {write : α → Bytes}
    (h : TakesWritten read P write) (f : α → β) : Takes (f <$> read) fun b bs =>
      ∃ a, P a ∧ b = f a ∧ bs = write a := by
  rw [map_eq_pure_bind]
  refine (h.bind fun a _ => takes_pure (f a)).congr fun b bs => ?_
  constructor
  · rintro ⟨a, ha, _, ⟨rfl, rfl⟩, rfl⟩
    exact ⟨a, ha, rfl, List.append_nil _⟩
  · rintro ⟨a, ha, rfl, rfl⟩
    exact ⟨a, ha, [], ⟨rfl, rfl⟩, (List.append_nil _).symm⟩

/-! ## Numbers and octets -/

theorem takes_takeOctets (n : Nat) :
    TakesWritten (takeOctets n) (fun _ => True) Octets.toList := by
  intro bs octets rest
  constructor
  · intro h
    change takeOctets n bs = _ at h
    rw [takeOctets] at h
    split at h
    · cases h
      exact ⟨_, ⟨trivial, rfl⟩, (List.take_append_drop n bs).symm⟩
    · cases h
  · rintro ⟨_, ⟨-, rfl⟩, rfl⟩
    exact run_takeOctets octets rest

theorem takes_readNumber (width : Nat) :
    TakesWritten (readNumber width) (· < Bytes.span width) (Bytes.littleEndian width) := by
  refine ((takes_takeOctets width).map _).congr fun n bs => ?_
  constructor
  · rintro ⟨octets, -, rfl, rfl⟩
    have hlt := Bytes.ofLittleEndian_lt octets.toList
    have hback := Bytes.littleEndian_ofLittleEndian octets.toList
    rw [octets.length_eq] at hlt hback
    exact ⟨hlt, hback.symm⟩
  · rintro ⟨hlt, rfl⟩
    refine ⟨⟨_, Bytes.length_littleEndian width n⟩, trivial, ?_, rfl⟩
    rw [Bytes.ofLittleEndian_littleEndian, Nat.mod_eq_of_lt hlt]

theorem takes_readWord : TakesWritten readWord (· < Bytes.span 8) writeWord :=
  takes_readNumber 8

theorem takes_readOctet : TakesWritten readOctet (fun _ => True) ([·]) := by
  intro bs b rest
  cases bs with
  | nil =>
    constructor
    · intro h
      cases h
    · rintro ⟨_, ⟨-, rfl⟩, h⟩
      cases h
  | cons first others =>
    constructor
    · intro h
      cases h
      exact ⟨_, ⟨trivial, rfl⟩, rfl⟩
    · rintro ⟨_, ⟨-, rfl⟩, h⟩
      cases h
      rfl

theorem takes_readMessageId :
    TakesWritten readMessageId (fun _ => True) fun i => writeWord i.toNat := by
  refine (takes_readWord.map _).congr fun i bs => ?_
  constructor
  · rintro ⟨n, hn, rfl, rfl⟩
    rw [Bytes.span_eight] at hn
    exact ⟨trivial, congrArg writeWord (UInt64.toNat_ofNat_of_lt' hn).symm⟩
  · rintro ⟨-, rfl⟩
    exact ⟨i.toNat, Bytes.span_eight ▸ i.toNat_lt, UInt64.ofNat_toNat.symm, rfl⟩

theorem takes_readSequence : TakesWritten readSequence (fun _ => True) writeSequence := by
  refine (takes_readWord.map _).congr fun s bs => ?_
  constructor
  · rintro ⟨n, hn, rfl, rfl⟩
    rw [Bytes.span_eight] at hn
    exact ⟨trivial, congrArg writeWord (UInt64.toNat_ofNat_of_lt' hn).symm⟩
  · rintro ⟨-, rfl⟩
    refine ⟨s.toUInt64.toNat, Bytes.span_eight ▸ s.toUInt64.toNat_lt, ?_, rfl⟩
    rw [UInt64.ofNat_toNat]
    rfl

theorem takes_readOctets :
    TakesWritten readOctets (·.length < Bytes.span 8) writeOctets := by
  refine (takes_readWord.bind fun n _ => (takes_takeOctets n).bind fun octets _ =>
    takes_pure octets.toList).congr fun octets bs => ?_
  constructor
  · rintro ⟨n, hn, _, ⟨octets, -, _, ⟨rfl, rfl⟩, rfl⟩, rfl⟩
    have hlength := octets.length_eq
    exact ⟨by omega, by rw [writeOctets, hlength, List.append_nil]⟩
  · rintro ⟨hlt, rfl⟩
    exact ⟨_, hlt, _, ⟨⟨octets, rfl⟩, trivial, [], ⟨rfl, rfl⟩, rfl⟩, by
      rw [writeOctets, List.append_nil]⟩

theorem takes_readFlag : TakesWritten readFlag (fun _ => True) writeFlag := by
  refine (takes_readOctet.bind (G := fun b flag bs =>
    (b = 0 ∧ flag = false ∨ b = 1 ∧ flag = true) ∧ bs = []) fun b _ => ?_).congr
    fun flag bs => ?_
  · split
    · exact (takes_pure false).congr fun flag bs => by simp
    · exact (takes_pure true).congr fun flag bs => by simp
    · rename_i hzero hone
      exact takes_throw _ fun flag bs h => h.1.elim (fun h => hzero h.1) fun h => hone h.1
  · constructor
    · rintro ⟨b, -, _, ⟨⟨rfl, rfl⟩ | ⟨rfl, rfl⟩, rfl⟩, rfl⟩ <;> exact ⟨trivial, rfl⟩
    · rintro ⟨-, rfl⟩
      cases flag with
      | false => exact ⟨0, trivial, [], ⟨.inl ⟨rfl, rfl⟩, rfl⟩, rfl⟩
      | true => exact ⟨1, trivial, [], ⟨.inr ⟨rfl, rfl⟩, rfl⟩, rfl⟩

theorem TakesWritten.option {read : Reader α} {P : α → Prop} {write : α → Bytes}
    (h : TakesWritten read P write) :
    TakesWritten (readOption read) (fun a? => ∀ a ∈ a?, P a) (writeOption write) := by
  refine (takes_readOctet.bind (G := fun b a? bs => b = 0 ∧ a? = none ∧ bs = [] ∨
    b = 1 ∧ ∃ a, P a ∧ a? = some a ∧ bs = write a) fun b _ => ?_).congr fun a? bs => ?_
  · split
    · exact (takes_pure none).congr fun a? bs => by simp
    · exact (map_eq_pure_bind some read ▸ h.map some).congr fun a? bs => by simp
    · rename_i hzero hone
      exact takes_throw _ fun a? bs h => h.elim (fun h => hzero h.1) fun h => hone h.1
  · constructor
    · rintro ⟨b, -, _, ⟨rfl, rfl, rfl⟩ | ⟨rfl, a, ha, rfl, rfl⟩, rfl⟩
      · exact ⟨fun _ h => (nomatch h), rfl⟩
      · exact ⟨fun _ h => Option.mem_some_iff.1 h ▸ ha, rfl⟩
    · rintro ⟨ha, rfl⟩
      cases a? with
      | none => exact ⟨0, trivial, [], .inl ⟨rfl, rfl, rfl⟩, rfl⟩
      | some a => exact ⟨1, trivial, write a, .inr ⟨rfl, a, ha a rfl, rfl, rfl⟩, rfl⟩

theorem takes_readId : TakesWritten readId (fun _ => True) (·.octets.toList) := by
  refine ((takes_takeOctets 20).map _).congr fun id bs => ?_
  constructor
  · rintro ⟨octets, -, rfl, rfl⟩
    exact ⟨trivial, congrArg Octets.toList (NodeId.octets_ofOctets octets).symm⟩
  · rintro ⟨-, rfl⟩
    exact ⟨id.octets, trivial, (NodeId.ofOctets_octets id).symm, rfl⟩

theorem takes_readText :
    TakesWritten readText (fun text => (Bytes.ofText text).length < Bytes.span 8) writeText := by
  intro bs text rest
  constructor
  · intro h
    rw [readText, run_bind_eq_ok] at h
    obtain ⟨n, left, hn, h⟩ := h
    rw [run_bind_eq_ok] at h
    obtain ⟨_, _, hget, h⟩ := h
    cases hget
    split at h
    · cases h
    · rw [run_bind_eq_ok] at h
      obtain ⟨octets, _, hoctets, h⟩ := h
      obtain ⟨_, ⟨hlt, rfl⟩, rfl⟩ := (takes_readWord _ _ _).1 hn
      obtain ⟨_, ⟨-, rfl⟩, rfl⟩ := (takes_takeOctets n _ _ _).1 hoctets
      split at h
      · rename_i hdecode
        cases h
        have hread : octets.toList = Bytes.ofText text := (Utf8.ofText_of_decode hdecode).symm
        have hlength := octets.length_eq
        refine ⟨writeWord n ++ octets.toList, ⟨?_, ?_⟩, (List.append_assoc _ _ _).symm⟩
        · show (Bytes.ofText text).length < _
          rw [← hread, hlength]
          exact hlt
        · rw [writeText, writeOctets, ← hread, hlength]
      · cases h
  · rintro ⟨_, ⟨h, rfl⟩, rfl⟩
    exact run_readText h rest

/-! ## Parts of one kind -/

/-- Octets that stand for some parts, one after the other. -/
def PartsForm (Form : α → Bytes → Prop) : List α → Bytes → Prop
  | [], bs => bs = []
  | a :: others, bs => ∃ first rest, Form a first ∧ PartsForm Form others rest ∧ bs = first ++ rest

theorem Takes.many {read : Reader α} {Form : α → Bytes → Prop} (h : Takes read Form) (n : Nat) :
    Takes (readMany read n) fun as bs => as.length = n ∧ PartsForm Form as bs := by
  induction n with
  | zero =>
    refine (takes_pure []).congr fun as bs => ?_
    constructor
    · rintro ⟨rfl, rfl⟩
      exact ⟨rfl, rfl⟩
    · rintro ⟨hlength, hbs⟩
      obtain rfl := List.length_eq_zero_iff.1 hlength
      exact ⟨rfl, hbs⟩
  | succ n ih =>
    refine (h.bind fun a _ _ => ih.bind fun rest _ _ => takes_pure (a :: rest)).congr
      fun as bs => ?_
    constructor
    · rintro ⟨a, first, ha, _, ⟨rest, others, ⟨hlength, hrest⟩, _, ⟨rfl, rfl⟩, rfl⟩, rfl⟩
      exact ⟨congrArg (· + 1) hlength, first, others, ha, hrest, by rw [List.append_nil]⟩
    · rintro ⟨hlength, hbs⟩
      cases as with
      | nil => cases hlength
      | cons a rest =>
        obtain ⟨first, others, ha, hrest, rfl⟩ := hbs
        exact ⟨a, first, ha, _, ⟨rest, others, ⟨Nat.succ.inj hlength, hrest⟩, [], ⟨rfl, rfl⟩,
          (List.append_nil _).symm⟩, rfl⟩

end Codec

end SignedRecords
