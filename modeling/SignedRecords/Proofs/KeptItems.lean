import SignedRecords.Proofs.Walks

/-!
# Items kept in a network

From some moment on no copy at a target expires, and whatever is put there has an owner. Then what
is true of the items of a node, and is not undone by a further put, stays true whatever the nodes
send each other, and shows in the replies of the node.

Main statements: `HasAt.traffics` and `HasAt.turn`.
-/

namespace SignedRecords

open Simulation (Network)

/-! ## 1. Stores -/

namespace ItemStore

/-- The copy at a target is alive, or was expired before `start`. -/
def Lasts (s : ItemStore) (target : NodeId) (start : Int) (now : Stamp) : Prop :=
  ∀ k, s.lookup target = some k → k.expiry < start ∨ k.isExpired now = false

/-- What no put undoes that happens after `start` and leaves the copies at a target alive. -/
def Endures (target : NodeId) (start : Int) (kept : ItemStore → Prop) : Prop :=
  ∀ (s : ItemStore) (now : Stamp) (item : Item), kept s → start ≤ now.sinceEpoch →
    s.Lasts target start now → OwnedAt target (.put item) → kept (s.serve now (.put item)).1

theorem endures_owned (target : NodeId) (start : Int) : Endures target start (Owned target) :=
  fun _ now _ hs _ _ hput => hs.serve now hput

/-- An item that was put, or one with a higher sequence number, stays. -/
theorem endures_holds (x : Item) (m : Sequence) (start : Int) :
    Endures x.target start fun s => Owned x.target s ∧ s.Holds x m start := by
  rintro s now item ⟨hs, hx⟩ hnow hlasts hput
  refine ⟨hs.serve now hput, hx.serve hs.distinct hput (by simp) (fun k hk hle => ?_) ?_⟩
  · exact (hlasts k hk).resolve_left (Int.not_lt.2 hle)
  · unfold endOfLife
    omega

end ItemStore

/-! ## 2. Networks -/

/-- The node at an address has items as described. -/
def HasAt (kept : ItemStore → Prop) (addr : Address) (n : LocalNetwork) : Prop :=
  ∃ node, n.node? addr = some node ∧ kept node.items

namespace Surroundings

/-- Nodes and clients of which none may be known at another address. From `start` on no copy at a
    target expires, and no item without an owner is put there. -/
def keeping (crowd clients : List Peer) (k : Nat) (target : NodeId) (start : Int) :
    Surroundings where
  crowd
  clients
  guests := []
  k
  moment now n := start ≤ now.sinceEpoch ∧ ∀ v ∈ crowd ++ clients, ∀ node,
    n.node? v.addr = some node → node.items.Lasts target start now
  sends m := ∀ sender item i, m = .put sender item i → ItemStore.OwnedAt target (.put item)

theorem keeping_sends_get {crowd clients : List Peer} {k : Nat} {target : NodeId} {start : Int}
    {sender : Peer} {about : NodeId} {known : Option Sequence} {i : UInt64} :
    (keeping crowd clients k target start).sends (.get sender about known i) := by
  intro _ _ _ hput
  cases hput

end Surroundings

variable {crowd clients : List Peer} {k : Nat} {target : NodeId} {start : Int}
  {kept : ItemStore → Prop}

/-- Whether something may happen at a moment can be computed. -/
theorem Surroundings.timely_keeping {n : LocalNetwork} {now : Stamp} (hnow : start ≤ now.sinceEpoch)
    (h : ∀ v ∈ crowd ++ clients, ((n.node? v.addr).all fun node =>
      node.routing.nodes.all (fun p => !p.isExpired now node.routing.nodeTtl) &&
        (node.items.lookup target).all fun k => !k.isExpired now) = true) :
    (keeping crowd clients k target start).Timely now n := by
  constructor
  case fresh =>
    intro v hv node hnode p hp
    have hone := h v hv
    rw [hnode, Option.all_some, Bool.and_eq_true] at hone
    simpa using List.all_eq_true.1 hone.1 p hp
  case moment =>
    refine ⟨hnow, fun v hv node hnode kept hkept => .inr ?_⟩
    have hone := h v hv
    rw [hnode, Option.all_some, Bool.and_eq_true, hkept] at hone
    simpa using hone.2

theorem HasAt.deliver (hkept : ItemStore.Endures target start kept) {v : Peer}
    (hv : v ∈ crowd ++ clients) {n : LocalNetwork} {now : Stamp}
    (hnow : (Surroundings.keeping crowd clients k target start).Timely now n) {m : Message}
    (hm : (Surroundings.keeping crowd clients k target start).sends m) (source addr : Address)
    (h : HasAt kept v.addr n) : HasAt kept v.addr (n.deliver now source addr m).1 := by
  obtain ⟨node, hnode, hitems⟩ := h
  rcases n.node?_deliver now source addr m v.addr with heq | ⟨found, _, hfound, heq⟩
  · exact ⟨node, heq.trans hnode, hitems⟩
  rw [hnode] at hfound
  cases hfound
  refine ⟨_, heq, ?_⟩
  rcases node.handle_items now source m with hsame | ⟨sender, item, i, hput, hserve⟩
  · rw [hsame]
    exact hitems
  · rw [hserve]
    exact hkept _ now item hitems hnow.moment.1 (hnow.moment.2 v hv node hnode)
      (hm sender item i hput)

theorem HasAt.introduced {addr : Address} {n : LocalNetwork} (now : Stamp) (peers : List Peer)
    (a : Address) (h : HasAt kept addr n) :
    HasAt kept addr (n.modify a (LocalNetwork.introduced now peers)) := by
  obtain ⟨node, hnode, hitems⟩ := h
  unfold HasAt
  rw [LocalNetwork.node?_introduced, hnode]
  split
  · exact ⟨_, rfl, hitems⟩
  · exact ⟨_, rfl, hitems⟩

theorem HasAt.traffic (hkept : ItemStore.Endures target start kept) {v : Peer}
    (hv : v ∈ crowd ++ clients) {n n' : LocalNetwork}
    (ht : (Surroundings.keeping crowd clients k target start).Traffic n n')
    (h : HasAt kept v.addr n) : HasAt kept v.addr n' := by
  cases ht with
  | delivers addr hnow _ hm => exact h.deliver hkept hv hnow hm _ addr
  | hears addr _ _ => exact h.introduced _ _ addr

theorem HasAt.traffics (hkept : ItemStore.Endures target start kept) {v : Peer}
    (hv : v ∈ crowd ++ clients) {n n' : LocalNetwork}
    (ht : Relation.ReflTransGen (Surroundings.keeping crowd clients k target start).Traffic n n')
    (h : HasAt kept v.addr n) : HasAt kept v.addr n' := by
  induction ht with
  | refl => exact h
  | tail _ ht ih => exact ih.traffic hkept hv ht

/-- Neither messages nor queries of a lookup take away what endures. -/
theorem HasAt.turn (hkept : ItemStore.Endures target start kept) {v asker : Peer}
    (hv : v ∈ crowd ++ clients) {w w' : Walk}
    (ht : (Surroundings.keeping crowd clients k target start).Turn asker w w')
    (h : HasAt kept v.addr w.network) : HasAt kept v.addr w'.network := by
  cases ht with
  | others htraffic => exact h.traffic hkept hv htraffic
  | @handles now peer n reply hnow _ _ _ hget =>
    have hnetwork := Network.get_network w.network now asker peer.addr w.step.lookup.target
      w.step.lookup.known
    rw [hget] at hnetwork
    cases hnetwork
    exact h.deliver hkept hv hnow Surroundings.keeping_sends_get _ peer.addr

end SignedRecords
