import Mathlib.Data.List.Perm.Basic
import SignedRecords.Republish.Machine

/-!
# The steps of a republish

What one event does to a run, rule by rule. An event that the run does not wait for does nothing,
a write of somebody else changes the store alone, and every other event is answered by the step of
the run that it belongs to.

Main statement: `moves_step`.
-/

open scoped List

namespace SignedRecords

/-! ## 1. Runs -/

namespace Republish

variable {r : Republish}

theorem config_tally (r : Republish) (record : Record) (how : PutEnd) :
    (r.tally record how).config = r.config := by
  cases how <;> rfl

theorem settle_of_lt {attempts : Nat} {record : Record} {rest : List Record}
    (h : attempts < r.config.maxAttempts) : r.settle attempts (record :: rest) =
      ({ r with phase := .retrying record attempts rest }, .retry record) := if_pos h

theorem settle_of_not_lt {attempts : Nat} {record : Record} {rest : List Record}
    (h : ¬attempts < r.config.maxAttempts) : r.settle attempts (record :: rest) =
      ({ r with
          phase := .noting rest
          report := { r.report with failed := r.report.failed + 1 } },
        .note ⟨record.id, UInt32.ofNat attempts⟩) := if_neg h

theorem listed_of_empty {page : Page} (h : page.records = []) :
    r.listed (.ok page) = r.afterPage page.next := by
  simp only [listed, h]

theorem listed_of_records {page : Page} (h : page.records ≠ []) : r.listed (.ok page) =
    ({ r with
        phase := .announcing (page.records.zipIdx.map fun (record, i) => (i, record)) page.next
        report := { r.report with
          batches := r.report.batches + 1
          seen := r.report.seen + page.records.length } },
      .puts (page.records.zipIdx.map fun (record, i) => (i, record))) := by
  cases hrecords : page.records with
  | nil => contradiction
  | cons first rest => simp only [listed, hrecords]

theorem map_snd_numbered (records : List Record) :
    (records.zipIdx.map fun (record, i) => (i, record)).map (·.2) = records := by
  rw [List.map_map]
  exact List.zipIdx_map_fst 0 records

theorem nodup_numbered (records : List Record) :
    ((records.zipIdx.map fun (record, i) => (i, record)).map (·.1)).Nodup := by
  rw [List.map_map]
  have h := List.zipIdx_map_snd 0 records
  exact h ▸ List.nodup_range'

theorem announced_of_find? {waiting : List (Nat × Record)} {next : Option String}
    {number : Nat} {found : Nat × Record} (how : PutEnd)
    (hphase : r.phase = .announcing waiting next)
    (hfound : waiting.find? (·.1 == number) = some found) :
    r.announced number how =
      let left := waiting.filter (·.1 != number)
      let r := { r.tally found.2 how with phase := .announcing left next }
      if left.isEmpty then ((r.afterPage next).1, some (r.afterPage next).2) else (r, none) := by
  simp only [announced, hphase, hfound]

theorem retried_true {record : Record} {attempts : Nat} {rest : List Record}
    (hphase : r.phase = .retrying record attempts rest) : r.retried true =
      { r with report := { r.report with succeeded := r.report.succeeded + 1 } }.settle 1 rest := by
  simp only [retried, hphase, if_true]

theorem retried_false {record : Record} {attempts : Nat} {rest : List Record}
    (hphase : r.phase = .retrying record attempts rest) :
    r.retried false = r.settle (attempts + 1) (record :: rest) := by
  simp only [retried, hphase, Bool.false_eq_true, if_false]

theorem noted_of_noting {rest : List Record} (hphase : r.phase = .noting rest) :
    r.noted = r.settle 1 rest := by
  simp only [noted, hphase]

theorem waiting?_eq_some {number : Nat} {record : Record} :
    r.waiting? number = some record ↔ ∃ waiting next found, r.phase = .announcing waiting next ∧
      waiting.find? (·.1 == number) = some found ∧ found.2 = record := by
  unfold waiting?
  cases r.phase <;> simp

end Republish

/-- With distinct numbers, one entry goes with its number. -/
theorem perm_of_find? {waiting : List (Nat × Record)} (h : (waiting.map (·.1)).Nodup)
    {number : Nat} {found : Nat × Record} (hfound : waiting.find? (·.1 == number) = some found) :
    waiting ~ found :: waiting.filter (·.1 != number) := by
  induction waiting with
  | nil => cases hfound
  | cons e rest ih =>
    rw [List.map_cons, List.nodup_cons] at h
    by_cases he : e.1 = number
    · obtain rfl : e = found := by simpa [he] using hfound
      have hothers : ∀ o ∈ rest, (o.1 != number) = true := by
        intro o ho
        have hne : o.1 ≠ e.1 := fun heq => h.1 (heq ▸ List.mem_map_of_mem ho)
        simpa [← he] using hne
      rw [List.filter_cons, if_neg (by simp [he]), List.filter_eq_self.2 hothers]
    · have hrest : rest.find? (·.1 == number) = some found := by simpa [he] using hfound
      rw [List.filter_cons, if_pos (by simp [he])]
      exact ((ih h.2 hrest).cons e).trans (.swap _ _ _)

/-! ## 2. Runs with their stores -/

namespace RepublishMachine

/-- The run waits for an event: for the turn of its store call, for an announcement of its page, or
    for another attempt. -/
def Awaits (m : RepublishMachine) : RepublishEvent → Prop
  | .write _ => False
  | .store _ => m.wait = .count ∨ (∃ token pageSize, m.wait = .list token pageSize) ∨
      ∃ failed, m.wait = .note failed
  | .announced number _ => m.run.waiting? number ≠ none
  | .retried _ => ∃ record, m.wait = .retry record

/-- The rules by which an event takes a run on. -/
inductive Moves (m : RepublishMachine) :
    RepublishEvent → RepublishMachine × List RepublishDeed → Prop where
  /-- The run does not wait for the event. -/
  | idle (event : RepublishEvent) (hnot : ¬m.Awaits event) : Moves m event (m, [])
  | write (record : Record) :
      Moves m (.write record) ({ m with store := m.store.attempt record }, [])
  | counted {turn : StoreTurn} (hwait : m.wait = .count) :
      Moves m (.store turn) (goOn m.store [] (m.run.counted (turn.run (.ok m.store.count))))
  | listed {turn : StoreTurn} {token : Option String} {pageSize : Nat}
      (hwait : m.wait = .list token pageSize) {page : Except StoreError Page}
      (hpage : turn.run (.ok (m.store.list token pageSize)) = page) :
      Moves m (.store turn) (goOn m.store [.listed page] (m.run.listed page))
  | noted {turn : StoreTurn} {failed : FailedRecord} (hwait : m.wait = .note failed) :
      Moves m (.store turn)
        (goOn ((turn.run (m.store.writeFailed failed)).toOption.getD m.store) [] m.run.noted)
  /-- An announcement ends, and others of its page have not. -/
  | announced {number : Nat} {how : PutEnd} {waiting : List (Nat × Record)}
      {next : Option String} {found : Nat × Record}
      (hphase : m.run.phase = .announcing waiting next)
      (hfound : waiting.find? (·.1 == number) = some found)
      (hleft : waiting.filter (·.1 != number) ≠ []) :
      Moves m (.announced number how)
        ({ m with run := { m.run.tally found.2 how with
            phase := .announcing (waiting.filter (·.1 != number)) next } }, [.ended found.2 how])
  /-- The last announcement of a page ends. -/
  | pageEnds {number : Nat} {how : PutEnd} {waiting : List (Nat × Record)}
      {next : Option String} {found : Nat × Record}
      (hphase : m.run.phase = .announcing waiting next)
      (hfound : waiting.find? (·.1 == number) = some found)
      (hlast : waiting.filter (·.1 != number) = []) :
      Moves m (.announced number how) (goOn m.store [.ended found.2 how]
        ({ m.run.tally found.2 how with phase := .announcing [] next }.afterPage next))
  | retried {acknowledged : Bool} {record : Record} (hwait : m.wait = .retry record) :
      Moves m (.retried acknowledged)
        (goOn m.store [.ended record (if acknowledged then .acknowledged else .failed)]
          (m.run.retried acknowledged))

theorem moves_storeTurn (m : RepublishMachine) (turn : StoreTurn) :
    Moves m (.store turn) (m.storeTurn turn) := by
  unfold storeTurn
  split
  · rename_i hwait
    exact .counted hwait
  · rename_i hwait
    exact .listed hwait rfl
  · rename_i hwait
    exact .noted hwait
  all_goals
    rename_i hwait
    exact .idle _ (by simp [Awaits, hwait])

theorem moves_announcementEnds (m : RepublishMachine) (number : Nat) (how : PutEnd) :
    Moves m (.announced number how) (m.announcementEnds number how) := by
  unfold announcementEnds
  cases hrecord : m.run.waiting? number with
  | none => exact .idle _ fun hawaits => hawaits hrecord
  | some record =>
    obtain ⟨waiting, next, found, hphase, hfound, rfl⟩ := Republish.waiting?_eq_some.1 hrecord
    simp only [Republish.announced_of_find? how hphase hfound]
    by_cases hlast : waiting.filter (·.1 != number) = []
    · simp only [hlast, List.isEmpty_nil, if_true]
      exact .pageEnds hphase hfound hlast
    · simp only [List.isEmpty_iff, hlast, if_false]
      exact .announced hphase hfound hlast

theorem moves_attemptEnds (m : RepublishMachine) (acknowledged : Bool) :
    Moves m (.retried acknowledged) (m.attemptEnds acknowledged) := by
  unfold attemptEnds
  split
  · rename_i hwait
    exact .retried hwait
  · rename_i hnot
    exact .idle _ fun ⟨record, hwait⟩ => hnot record hwait

/-- Every step is by one of the rules. -/
theorem moves_step (m : RepublishMachine) (event : RepublishEvent) :
    Moves m event (m.step event) := by
  cases event with
  | write record => exact .write record
  | store turn => exact m.moves_storeTurn turn
  | announced number how => exact m.moves_announcementEnds number how
  | retried acknowledged => exact m.moves_attemptEnds acknowledged

end RepublishMachine

end SignedRecords
