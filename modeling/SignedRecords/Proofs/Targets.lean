import SignedRecords.Proofs.Authenticity
import SignedRecords.Proofs.Bencode
import SignedRecords.Proofs.ItemRuns

/-!
# The two kinds of targets

A mutable item lives at the digest of its key and salt, an immutable one at the digest of its
bencoded value, and no tag tells the two apart. Octets of the one kind are also of the other
exactly when the key begins with a number and a colon, and as many octets follow as the number
says: without salt, when the key begins with `29:`. Such keys are in use like all others, and
whoever has one shares its target with an immutable item.

All other keys have their target to themselves, unless the digest collides: no immutable item
holds there, ends a search for it or takes the place of what a store keeps there.

Main statement: `targets_apart`.
-/

namespace SignedRecords

/-! ## 1. What the digests are of -/

/-- The key begins with a number and a colon, and the octets after the colon, salt included, are as
    many as the number says. -/
def NamesItsLength (key : Octets 32) (salt : Bytes) : Prop :=
  ∃ n ≤ maxValueSize, decimal n ++ [58] <+: key.toList ∧
    32 + salt.length = (decimal n).length + 1 + n

theorem append_salt_inj {key key' : Octets 32} {salt salt' : Bytes}
    (h : key.toList ++ salt = key'.toList ++ salt') : key = key' ∧ salt = salt' := by
  obtain ⟨hkey, hsalt⟩ := List.append_inj h (key.length_eq.trans key'.length_eq.symm)
  exact ⟨Octets.ext hkey, hsalt⟩

/-- A key and salt are a bencoded value exactly when the key names the length. -/
theorem namesItsLength_iff {key : Octets 32} {salt : Bytes} :
    (∃ value : Bytes, value.length ≤ maxValueSize ∧ key.toList ++ salt = bencode value) ↔
      NamesItsLength key salt := by
  have hwidth := key.length_eq
  constructor
  · rintro ⟨value, hfits, heq⟩
    refine ⟨value.length, hfits, ?_, ?_⟩
    · -- The number and the colon are short enough to lie in the key.
      have hdigits : (decimal value.length).length ≤ 4 :=
        (length_decimal_le (by decide)).2 (Nat.lt_of_le_of_lt hfits (by decide))
      have hfront : decimal value.length ++ [58] <+: key.toList ++ salt := by
        rw [heq, bencode]
        exact ⟨value, List.append_assoc _ _ _⟩
      refine List.prefix_of_prefix_length_le hfront (List.prefix_append _ _) ?_
      rw [List.length_append, List.length_singleton]
      omega
    · have hlength := congrArg List.length heq
      rw [length_bencode, List.length_append, hwidth] at hlength
      exact hlength
  · rintro ⟨n, hn, ⟨rest, hrest⟩, hlength⟩
    have hvalue : (rest ++ salt).length = n := by
      have hkey := congrArg List.length hrest
      rw [List.length_append, List.length_append, List.length_singleton, hwidth] at hkey
      rw [List.length_append]
      omega
    refine ⟨rest ++ salt, by omega, ?_⟩
    rw [bencode, hvalue, ← hrest, List.append_assoc, List.append_assoc]
    rfl

/-- Without salt 29 octets have to follow, since only then number, colon and value are 32. -/
theorem namesItsLength_nil {key : Octets 32} :
    NamesItsLength key [] ↔ Bytes.ofText "29:" <+: key.toList := by
  have h29 : decimal 29 ++ [58] = Bytes.ofText "29:" := by decide +kernel
  constructor
  · rintro ⟨n, -, hprefix, hlength⟩
    rw [List.length_nil] at hlength
    have hone : (decimal n).length ≤ 1 ↔ n < 10 := length_decimal_le (by decide)
    have htwo : (decimal n).length ≤ 2 ↔ n < 100 := length_decimal_le (by decide)
    obtain rfl : n = 29 := by omega
    rw [h29] at hprefix
    exact hprefix
  · intro h
    have hdigits : (decimal 29).length = 2 := by decide
    refine ⟨29, by decide, ?_, ?_⟩
    · rw [h29]
      exact h
    · rw [hdigits]
      rfl

/-! ## 2. Items without an owner -/

/-- An item without an owner whose bencoded value collides with a key and salt. -/
def ValueCollision (key : Octets 32) (salt : Bytes) (item : Item) : Prop :=
  item.isMutable = false ∧ Sha1.Collide (bencode item.value) (key.toList ++ salt)

/-- An item without an owner that holds at the target of a key collides with the key, or the key
    names its length. -/
theorem collision_of_holdsAt {key : Octets 32} {salt : Bytes} (hkey : ¬NamesItsLength key salt)
    {item : Item} (hm : item.isMutable = false)
    (hholds : item.holdsAt (NodeId.ofKey key salt) = true) : ValueCollision key salt item := by
  obtain ⟨htarget, hverify⟩ := Bool.and_eq_true_iff.1 hholds
  have hnone : item.key = none := Option.isNone_iff_eq_none.1 (Option.isSome_eq_false_iff.1 hm)
  refine ⟨hm, fun heq => hkey ?_, ?_⟩
  · exact namesItsLength_iff.1 ⟨item.value, Item.fits_of_verify hverify, heq.symm⟩
  · have hsame := beq_iff_eq.1 htarget
    simp only [Item.target, hnone] at hsame
    exact NodeId.ofOctets_inj hsame

/-! ## 3. Searches -/

/-- Only the stall of its lookup ends a search for the target of a key, apart from the deadline. -/
theorem SearchRun.stalled_or_collision {items : Item → Prop} {l : Lookup} {s : Search}
    (h : SearchRun items l s) {key : Octets 32} {salt : Bytes} (hkey : ¬NamesItsLength key salt)
    (hl : l.target = NodeId.ofKey key salt) {e : SearchEnd} (he : s.receive = .inr e) :
    (∃ closest rest, s.mailbox = .stalled closest :: rest ∧ e = ⟨s.result, closest⟩) ∨
      ∃ item, items item ∧ ValueCollision key salt item := by
  have hsound := h.sound
  unfold Search.receive at he
  split at he
  · cases he
  · rename_i item rest hmail
    obtain ⟨hitem, hholds⟩ := hsound.mailbox item (hmail ▸ List.mem_cons_self)
    rw [hl] at hholds
    cases hm : item.isMutable with
    | false => exact .inr ⟨item, hitem, collision_of_holdsAt hkey hm hholds⟩
    | true =>
      -- An item with an owner is weighed, and the search goes on.
      simp only [hm, Bool.not_true, Bool.false_eq_true, if_false] at he
      split at he
      · cases he
      · cases he
  · rename_i closest rest hmail
    cases he
    exact .inl ⟨closest, rest, hmail, rfl⟩

/-! ## 4. Stores -/

/-- Whether a request is one that a store acts on: all but the put of an item that is not well
    formed. -/
def ItemRequest.wellFormed : ItemRequest → Bool
  | .put item => item.verify
  | _ => true

namespace ItemStore

theorem distinct_empty (ttl : Nat) : (empty ttl).Distinct := List.nodup_nil

theorem distinct_after {s : ItemStore} (hs : s.Distinct) (run : ItemRun) :
    (s.after run).Distinct := by
  induction run generalizing s with
  | nil => exact hs
  | cons e rest ih => exact ih (distinct_serve hs e.1 e.2)

theorem serve_of_not_wellFormed {request : ItemRequest} (h : request.wellFormed = false)
    (s : ItemStore) (now : Stamp) : (s.serve now request).1 = s := by
  cases request with
  | put item => rw [serve_put_error (put_eq_error.2 (.inl ⟨h, rfl⟩))]
  | get target known => cases h
  | sweep => cases h
  | clear => cases h

/-- A run comes to the same without the puts that are refused for their form. -/
theorem after_filter_wellFormed (s : ItemStore) (run : ItemRun) :
    s.after (run.filter (·.2.wellFormed)) = s.after run := by
  induction run generalizing s with
  | nil => rfl
  | cons e rest ih =>
    obtain ⟨now, request⟩ := e
    rw [List.filter_cons]
    cases h : request.wellFormed with
    | true =>
      rw [if_pos rfl]
      exact ih _
    | false =>
      rw [if_neg Bool.false_ne_true, ih, after, serve_of_not_wellFormed h]

/-- A well formed request puts no item without an owner at the target of a key. -/
theorem ownedAt_or_collision {key : Octets 32} {salt : Bytes} (hkey : ¬NamesItsLength key salt)
    {request : ItemRequest} (hform : request.wellFormed = true) :
    OwnedAt (NodeId.ofKey key salt) request ∨
      ∃ item, request = .put item ∧ ValueCollision key salt item := by
  cases request with
  | put item =>
    cases hm : item.isMutable with
    | true => exact .inl fun _ => hm
    | false =>
      by_cases ht : item.target = NodeId.ofKey key salt
      · have hholds : item.holdsAt (NodeId.ofKey key salt) = true :=
          Bool.and_eq_true_iff.2 ⟨beq_iff_eq.2 ht, hform⟩
        exact .inr ⟨item, rfl, collision_of_holdsAt hkey hm hholds⟩
      · exact .inl fun h => absurd h ht
  | get target known => exact .inl trivial
  | sweep => exact .inl trivial
  | clear => exact .inl trivial

/-- An item without an owner leaves what is kept at the target of a key. -/
theorem lookup_of_put_or_collision {key : Octets 32} {salt : Bytes}
    (hkey : ¬NamesItsLength key salt) {s s' : ItemStore} {item : Item} {now : Stamp}
    (hm : item.isMutable = false) (h : s.put item now = .ok s') :
    s'.lookup (NodeId.ofKey key salt) = s.lookup (NodeId.ofKey key salt) ∨
      ValueCollision key salt item := by
  have hform : (ItemRequest.put item).wellFormed = true := (put_eq_ok.1 h).1
  rcases ownedAt_or_collision hkey hform with howned | ⟨other, hother, hcollide⟩
  · have hne : NodeId.ofKey key salt ≠ item.target := by
      intro ht
      rw [howned ht.symm] at hm
      cases hm
    rw [lookup_of_put h, if_neg hne]
    exact .inl rfl
  · cases hother
    exact .inr hcollide

/-- What is put is answered until its lifetime is over. -/
theorem get_of_put {s s' : ItemStore} {item : Item} {now later : Stamp}
    (h : s.put item now = .ok s') (hlater : later.sinceEpoch < s.endOfLife now) :
    s'.get item.target none later = some item := by
  have hlookup := lookup_of_put h item.target
  rw [if_pos rfl] at hlookup
  exact get_none_eq_some.2 ⟨_, live?_eq_some.2 ⟨hlookup, isExpired_eq_false.2 hlater⟩, rfl⟩

/-- An item without an owner is never refused for what is kept already. -/
theorem put_plain {value : Bytes} (hfits : value.length ≤ maxValueSize) (s : ItemStore)
    (now : Stamp) : ∃ s', s.put (.plain value) now = .ok s' := by
  have hverify : (Item.plain value).verify = true := if_neg (Nat.not_lt.2 hfits)
  have hfree : s.conflict? (.plain value) now = none := by
    rw [Option.eq_none_iff_forall_ne_some]
    rintro ⟨current, attempted⟩ hc
    obtain ⟨-, -, hseq, -⟩ := conflict?_eq_some.1 hc
    cases hseq
  exact ⟨_, put_eq_ok.2 ⟨hverify, hfree, rfl⟩⟩

/-- Whatever is put meanwhile, a live item of a key only makes room for one with a higher sequence
    number. -/
theorem get_after_put_or_collision {key : Octets 32} {salt : Bytes}
    (hkey : ¬NamesItsLength key salt) {s s' : ItemStore} (hs : s.Distinct) {x : Item}
    {n : Sequence} {now : Stamp} (ht : x.target = NodeId.ofKey key salt) (hn : x.seq = some n)
    (hput : s.put x now = .ok s') {between : ItemRun} {later : Stamp}
    (hclear : ∀ e ∈ between, e.2 ≠ .clear)
    (htime : ∀ e ∈ between, now.sinceEpoch ≤ e.1.sinceEpoch ∧ e.1.sinceEpoch ≤ later.sinceEpoch)
    (hlater : later.sinceEpoch < s.endOfLife now) :
    (∃ y m, (s'.after between).get (NodeId.ofKey key salt) none later = some y ∧
        y.seq = some m ∧ n ≤ m ∧ (m = n → y = x)) ∨
      ∃ e ∈ between, ∃ item, e.2 = .put item ∧ ValueCollision key salt item := by
  by_cases hcollide : ∃ e ∈ between, ∃ item, e.2 = .put item ∧ ValueCollision key salt item
  · exact .inr hcollide
  left
  -- Of the items that are well formed all that come to the target have an owner.
  have howned : ∀ e ∈ between.filter (·.2.wellFormed), OwnedAt x.target e.2 ∧ e.2 ≠ .clear := by
    intro e he
    obtain ⟨hmem, hform⟩ := List.mem_filter.1 he
    refine ⟨?_, hclear e hmem⟩
    rw [ht]
    exact (ownedAt_or_collision hkey hform).resolve_right fun hc => hcollide ⟨e, hmem, hc⟩
  have httl : s'.ttl = s.ttl := by
    have h := serve_ttl s now (.put x)
    rw [serve_put_ok hput] at h
    exact h
  have hholds := (holds_of_put hput hn).after (distinct_of_put hs hput) howned fun e he => by
    have hmoment := htime e (List.mem_filter.1 he).1
    unfold endOfLife at hlater ⊢
    rw [httl]
    omega
  rw [after_filter_wellFormed] at hholds
  rw [← ht]
  exact get_of_holds hholds hlater

end ItemStore

/-! ## 5. Keys that have their target to themselves -/

/-- No item without an owner gets at the target of a key and salt, unless it collides. -/
structure Apart (key : Octets 32) (salt : Bytes) : Prop where
  /-- No such item holds there. -/
  holds : ∀ item, item.isMutable = false → item.holdsAt (NodeId.ofKey key salt) = true →
    ValueCollision key salt item
  /-- Over nodes that answer any items in any order, only the stall of its lookup ends a search
      before the deadline. -/
  search : ∀ items l s e, SearchRun items l s → l.target = NodeId.ofKey key salt →
    s.receive = .inr e →
      (∃ closest rest, s.mailbox = .stalled closest :: rest ∧ e = ⟨s.result, closest⟩) ∨
        ∃ item, items item ∧ ValueCollision key salt item
  /-- In any store, putting such an item leaves what is kept. -/
  put : ∀ s s' item now, item.isMutable = false → ItemStore.put s item now = .ok s' →
    s'.lookup (NodeId.ofKey key salt) = s.lookup (NodeId.ofKey key salt) ∨
      ValueCollision key salt item
  /-- After any requests, an item that is put there, or one with a higher sequence number, is
      answered until the end of its lifetime, whatever is put meanwhile. -/
  keeps : ∀ ttl before s' x n now, x.target = NodeId.ofKey key salt → x.seq = some n →
    ((ItemStore.empty ttl).after before).put x now = .ok s' →
      ∀ (between : ItemRun) (later : Stamp), (∀ e ∈ between, e.2 ≠ .clear) →
        (∀ e ∈ between, now.sinceEpoch ≤ e.1.sinceEpoch ∧
          e.1.sinceEpoch ≤ later.sinceEpoch) →
        later.sinceEpoch < ((ItemStore.empty ttl).after before).endOfLife now →
          (∃ y m, (s'.after between).get (NodeId.ofKey key salt) none later = some y ∧
              y.seq = some m ∧ n ≤ m ∧ (m = n → y = x)) ∨
            ∃ e ∈ between, ∃ item, e.2 = .put item ∧ ValueCollision key salt item

theorem apart_of_not_namesItsLength {key : Octets 32} {salt : Bytes}
    (hkey : ¬NamesItsLength key salt) : Apart key salt where
  holds _ hm hholds := collision_of_holdsAt hkey hm hholds
  search _ _ _ _ hrun hl he := hrun.stalled_or_collision hkey hl he
  put _ _ _ _ hm h := ItemStore.lookup_of_put_or_collision hkey hm h
  keeps ttl before _ _ _ _ ht hn hput _ _ hclear htime hlater :=
    ItemStore.get_after_put_or_collision hkey
      (ItemStore.distinct_after (ItemStore.distinct_empty ttl) before) ht hn hput hclear htime
      hlater

/-- The octets that the target of a mutable item is the digest of determine its key and salt, and
    those of an immutable one its value. The octets of a key and salt are those of a value of at
    most 1000 octets exactly when the key names its length, without salt exactly when it begins
    with `29:`. Any other key and salt are kept apart from all immutable items. -/
theorem targets_apart (key : Octets 32) (salt : Bytes) :
    (∀ (key' : Octets 32) (salt' : Bytes),
      key.toList ++ salt = key'.toList ++ salt' → key = key' ∧ salt = salt') ∧
    (∀ value value' : Bytes, bencode value = bencode value' → value = value') ∧
    ((∃ value : Bytes, value.length ≤ maxValueSize ∧ key.toList ++ salt = bencode value) ↔
      NamesItsLength key salt) ∧
    (NamesItsLength key [] ↔ Bytes.ofText "29:" <+: key.toList) ∧
    (¬NamesItsLength key salt → Apart key salt) :=
  ⟨fun _ _ => append_salt_inj, fun _ _ => bencode_inj, namesItsLength_iff, namesItsLength_nil,
    apart_of_not_namesItsLength⟩

/-- An immutable item is put after an item of a key that does not begin with `29:`, and the item is
    still answered. -/
theorem targets_apart_of_neutral :
    ¬NamesItsLength neutralKey [] ∧ Apart neutralKey [] ∧
      ∃ s' now later, (ItemStore.empty 60000).put (neutralRecord [1] 1).item now = .ok s' ∧
        ((∃ y m, (s'.after [(later, .put (.plain [2]))]).get (NodeId.ofKey neutralKey []) none
            later = some y ∧ y.seq = some m ∧ 1 ≤ m ∧ (m = 1 → y = (neutralRecord [1] 1).item)) ∨
          ∃ e ∈ [(later, ItemRequest.put (.plain [2]))], ∃ item, e.2 = .put item ∧
            ValueCollision neutralKey [] item) := by
  have hkey : ¬NamesItsLength neutralKey [] := by
    rw [namesItsLength_nil]
    decide +kernel
  have hapart := (targets_apart neutralKey []).2.2.2.2 hkey
  have hverify : (neutralRecord [1] 1).item.verify = true :=
    (if_neg (by decide)).trans (neutral_signature_holds [] 1 [1])
  let now : Stamp := .ofClock 0 1
  let later : Stamp := .ofClock 0 2
  obtain ⟨s', hput⟩ : ∃ s', (ItemStore.empty 60000).put (neutralRecord [1] 1).item now = .ok s' :=
    ⟨_, ItemStore.put_eq_ok.2 ⟨hverify, rfl, rfl⟩⟩
  refine ⟨hkey, hapart, s', now, later, hput, ?_⟩
  have htarget : (neutralRecord [1] 1).item.target = NodeId.ofKey neutralKey [] := rfl
  refine hapart.keeps 60000 [] s' _ 1 now htarget rfl hput _ later ?_ ?_ (by decide +kernel)
  · intro e he
    rw [List.mem_singleton.1 he]
    exact nofun
  · intro e he
    rw [List.mem_singleton.1 he]
    decide +kernel

/-! ## 6. A key that begins with a number and a colon -/

/-- The public key of a secret that was searched for until the key began with `29:`. -/
def countingKey : Octets 32 :=
  ⟨[0x32, 0x39, 0x3a, 0x81, 0x8f, 0xbd, 0xfe, 0xca, 0x59, 0x5a, 0x5a, 0x20, 0x11, 0x19, 0x75, 0x4d,
    0x39, 0xf7, 0x89, 0xa1, 0x10, 0x8b, 0x95, 0xd8, 0x75, 0x98, 0xcb, 0x12, 0x69, 0x22, 0x55, 0xf4],
    rfl⟩

/-- An item of this key, signed by its owner. -/
def countingItem : Item :=
  .signed countingKey [0x68, 0x69]
    ⟨[0x87, 0x4f, 0xf5, 0x7c, 0x9c, 0x89, 0x4c, 0x80, 0x01, 0x07, 0x5c, 0x32, 0x9f, 0x81, 0xc2,
      0x5a, 0x7f, 0x9a, 0x41, 0xd6, 0xce, 0x4c, 0xd8, 0x68, 0x31, 0x19, 0xd4, 0x5c, 0x2f, 0xca,
      0xda, 0x3b, 0x4d, 0x36, 0x68, 0x8c, 0x46, 0xc9, 0xe4, 0x44, 0x32, 0x2f, 0x07, 0xd5, 0x3e,
      0x7a, 0xda, 0x2f, 0x0f, 0x5f, 0xd9, 0xbf, 0x43, 0x05, 0xbc, 0xe5, 0xa9, 0x3d, 0x7d, 0xa8,
      0x19, 0x94, 0x0e, 0x0e], rfl⟩ 5

/-- An immutable item whose bencoded value is the key. -/
def countedItem : Item := .plain (countingKey.toList.drop 3)

/-- The immutable item takes the place of the live one of the owner, and it ends a search for the
    target of the key while a node has not answered. -/
theorem immutable_replaces_mutable :
    countingKey.toList ++ [] = bencode countedItem.value ∧
    countedItem.value.length ≤ maxValueSize ∧
    (∃ s s' now, (ItemStore.empty 60000).put countingItem now = .ok s ∧
      s.get (NodeId.ofKey countingKey []) none now = some countingItem ∧
      s.put countedItem now = .ok s' ∧
      s'.get (NodeId.ofKey countingKey []) none now = some countedItem) ∧
    ∃ l s stats learned, SearchRun (· = countedItem) l s ∧
      l.target = NodeId.ofKey countingKey [] ∧ s.mailbox = [.candidate countedItem] ∧
      s.receive = .inr ⟨.ok (countedItem, stats), learned⟩ := by
  have hsame : countingKey.toList ++ [] = bencode countedItem.value := by decide +kernel
  have hown : countingItem.target = NodeId.ofKey countingKey [] := rfl
  have htarget : countedItem.target = NodeId.ofKey countingKey [] := by
    rw [NodeId.ofKey, hsame]
    rfl
  have hfits : countedItem.value.length ≤ maxValueSize := by decide +kernel
  have hverify : countingItem.verify = true := by decide +kernel
  let now : Stamp := .ofClock 0 1
  obtain ⟨s, hs⟩ : ∃ s, (ItemStore.empty 60000).put countingItem now = .ok s :=
    ⟨_, ItemStore.put_eq_ok.2 ⟨hverify, rfl, rfl⟩⟩
  obtain ⟨s', hs'⟩ : ∃ s', s.put countedItem now = .ok s' := ItemStore.put_plain hfits s now
  have httl : s.ttl = 60000 := by
    obtain ⟨-, -, rfl⟩ := ItemStore.put_eq_ok.1 hs
    rfl
  have hlive : now.sinceEpoch < s.endOfLife now := by
    rw [ItemStore.endOfLife, httl]
    decide +kernel
  have hkept : s.get countingItem.target none now = some countingItem :=
    ItemStore.get_of_put hs (by decide +kernel)
  rw [hown] at hkept
  have hreplaced := ItemStore.get_of_put hs' hlive
  rw [htarget] at hreplaced
  refine ⟨hsame, hfits, ⟨s, s', now, hs, hkept, hs', hreplaced⟩, ?_⟩
  -- Two nodes are asked, and the nearer one answers the immutable item.
  let near : Peer := ⟨1, .v4 (.zero 4) 0, default⟩
  let far : Peer := ⟨2, .v4 (.zero 4) 1, default⟩
  let l := DhtConfig.standard.lookup 0 (NodeId.ofKey countingKey []) none [near, far]
  let answered := ((Search.ofLookup l).begin.1.answer near.id (some ⟨some countedItem, []⟩)).1
  have hrun : SearchRun (· = countedItem) l answered :=
    .replies (.begins .start) _ _ fun i hi => (Option.some.inj hi).symm
  have hmail : answered.mailbox = [.candidate countedItem] := by decide +kernel
  have hreceive : answered.receive = .inr ⟨.ok (countedItem, answered.lookup.stats), []⟩ := by
    simp only [Search.receive, hmail]
    rfl
  exact ⟨l, answered, _, _, hrun, rfl, hmail, hreceive⟩

end SignedRecords
