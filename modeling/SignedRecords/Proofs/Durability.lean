import SignedRecords.Proofs.NeutralKey
import SignedRecords.Proofs.ServiceRuns

/-!
# When a published record is in the store

A publish that writes has the record in the store when it succeeds. One that is skipped because
its response is cached trusts the cache, and the cache is filled from three sides: what a publish
or the store has brought is in the store, what the DHT has brought need not be. So a record that
was found in the DHT and is then published is not stored.

Main statement: `publish_durable_iff` says exactly when the record is there.
-/

namespace SignedRecords

open ServiceMachine

/-- A publish that ends at once, and the DHT has brought what is cached for its id. -/
def SkippedForDht (m : ServiceMachine) (history : History) (event : ServiceEvent)
    (record : Record) : Prop :=
  (∃ call text, event = .publish call text record) ∧
    (m.lastCached? history record.id).any Brought.isResolved = true

/-- The store has held a record that is not older, from the start or since a publish. -/
def StoredBefore (m : ServiceMachine) (history : History) (record : Record) : Prop :=
  m.service.store.Holds record.id record.sequence ∨
    ∃ r, .published record.id r ∈ m.broughtIn history ∧ record.sequence ≤ r.sequence

/-- A skipped publish whose cached response did not come from the DHT is of a stored record. -/
theorem storedBefore_of_held {m : ServiceMachine} (hv : m.WritesValid)
    (hempty : m.service.responses.entries = []) {history : History} {record : Record}
    (hheld : (m.after history).service.responses.held? record.id = some record.response)
    (hlast : ¬ (m.lastCached? history record.id).any Brought.isResolved = true) :
    StoredBefore m history record := by
  rcases held?_after (TtlCache.distinct_of_nil hempty) hheld with ⟨b, hb, hr⟩ | ⟨-, hstart⟩
  · obtain ⟨hmem, hid⟩ := lastCached?_eq_some hb
    rw [hb] at hlast
    have hlocal : b.isResolved = false := by simpa using hlast
    have hholds := (sequence_of_broughtIn hv (mem_broughtIn_of_mem_cachedIn hmem) hlocal).2
    rw [hid, hr] at hholds
    exact (holds_after hv history _ _).1 hholds
  · rw [TtlCache.held?_of_nil hempty] at hstart
    cases hstart

/-- When a publish succeeds, the store holds the record or a newer one of its id, exactly unless
    the publish was skipped for a response which the DHT had brought, and the store had not held
    such a record before. This is so after every history of a service with an empty cache, however
    the pieces of its calls are interleaved, and for every content of the store. A piece of a call
    ends where the program awaits. -/
theorem publish_durable_iff (start : Service) (hempty : start.responses.entries = [])
    (history : History) (now call : Nat) (event : ServiceEvent) (record : Record)
    (hrecord : ((ofService start).after history).publishes? event = some record)
    (hok : .replies call .published ∈ (((ofService start).after history).step now event).2) :
    ((ofService start).after ((now, event) :: history)).service.store.Holds
        record.id record.sequence ↔
      ¬ SkippedForDht (ofService start) history event record ∨
        StoredBefore (ofService start) history record := by
  have hv := writesValid_ofService start
  have hpast := writesValid_after hv history
  rcases published_of_step hok with
    ⟨text, r, rfl, -, hheld⟩ | ⟨id, r, rfl, hw, hbrings⟩
  · -- The publish was skipped, and the store is as before.
    have hr : r = record := Option.some.inj hrecord
    subst hr
    have hstore : ((ofService start).after ((now, .publish call text r) :: history)).service.store =
        ((ofService start).after history).service.store :=
      step_store fun id' r' h => nomatch h
    rw [hstore, holds_after hv history]
    constructor
    · exact .inr
    · rintro (hskip | hstored)
      · exact storedBefore_of_held hv hempty hheld fun h => hskip ⟨⟨call, text, rfl⟩, h⟩
      · exact hstored
  · -- The publish has written.
    have hr : r = record := by simpa [publishes?, hw] using hrecord
    subst hr
    obtain ⟨rfl, hvalid⟩ := valid_of_published hpast hbrings
    have hholds := (holds_step hpast now (.store call .proceeds) r.id r.sequence).2
      (.inr ⟨r, hbrings, Int64.le_refl _⟩)
    refine ⟨fun _ => .inl ?_, fun _ => hholds⟩
    rintro ⟨⟨_, _, h⟩, -⟩
    cases h

/-- A record is found in the DHT and then published: the publish succeeds, and the store has
    nothing. -/
theorem found_then_published_not_stored :
    ∃ (start : Service) (history : History) (record : Record),
      start.responses.entries = [] ∧
        .replies 1 .published ∈
          (((ofService start).after history).step 2 (.publish 1 record.id record)).2 ∧
        ¬ ((ofService start).after
          ((2, .publish 1 record.id record) :: history)).service.store.Holds
            record.id record.sequence := by
  let start : Service := .fresh .standard (.memory .empty)
  let record := neutralRecord [] 5
  let history : History :=
    [(1, .lookup 0 (.answers (.ok ⟨record.response, true⟩))), (0, .get 0 record.id)]
  have hok : .replies 1 .published ∈
      (((ofService start).after history).step 2 (.publish 1 record.id record)).2 := by
    decide +kernel
  refine ⟨start, history, record, rfl, hok, fun hholds => ?_⟩
  have hiff := publish_durable_iff start rfl history 2 1 (.publish 1 record.id record) record rfl
    hok
  have hlast : ((ofService start).lastCached? history record.id).any Brought.isResolved = true := by
    decide +kernel
  have hbrought : (ofService start).broughtIn history = [.resolved record.id record.response] := by
    decide +kernel
  rcases hiff.1 hholds with hskip | hstart | ⟨r, hr, -⟩
  · exact hskip ⟨⟨1, record.id, rfl⟩, hlast⟩
  · exact Store.not_holds_empty _ _ hstart
  · rw [hbrought] at hr
    cases List.mem_singleton.1 hr

end SignedRecords
