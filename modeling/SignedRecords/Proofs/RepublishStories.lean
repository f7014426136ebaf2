import Mathlib.Data.List.Perm.Basic
import SignedRecords.Republish.Machine

/-!
# The stories of a republish

A run tells a story of every record that it has seen on a page: how the first announcement ended,
and how the repetitions did. The stories are read off from what the run has done and heard. They
say how often each record was announced, and the report and the ledger have to agree with them.

Main statements: `Follows.extend` and `Accounts.giveUp`.
-/

open scoped List

namespace SignedRecords

/-! ## 1. Deeds -/

namespace RepublishDeed

/-- The records of a page that the store has answered with. -/
def pageRecords : RepublishDeed → List Record
  | .listed (.ok page) => page.records
  | _ => []

/-- The records whose first announcements begin. -/
def announced : RepublishDeed → List Record
  | .announces records => records
  | _ => []

/-- The record that is announced once more. -/
def repeated : RepublishDeed → List Record
  | .repeats record => [record]
  | _ => []

/-- The record whose announcement has ended, and whether it was acknowledged. -/
def outcome : RepublishDeed → List (Record × Bool)
  | .ended record how => [(record, how == .acknowledged)]
  | _ => []

/-- The failure that the store is asked to add to the ledger. -/
def noted : RepublishDeed → List FailedRecord
  | .notes failed => [failed]
  | _ => []

end RepublishDeed

namespace RepublishMachine

/-- The machine after a history, whose last event comes first. -/
def after (m : RepublishMachine) : List RepublishEvent → RepublishMachine
  | [] => m
  | event :: past => ((m.after past).step event).1

/-- What the run has done in a history, in the order of time. -/
def deedsIn (m : RepublishMachine) : List RepublishEvent → List RepublishDeed
  | [] => []
  | event :: past => m.deedsIn past ++ ((m.after past).step event).2

end RepublishMachine

/-! ## 2. Stories -/

/-- What became of a record: whether its first announcement was acknowledged, and whether the
    repetitions were. -/
structure Story where
  record : Record
  first : Bool
  again : List Bool

namespace Story

/-- Which announcements of the record were acknowledged, in the order of time. -/
def ends (s : Story) : List Bool := s.first :: s.again

/-- Whether the last announcement was acknowledged. -/
def succeeded (s : Story) : Bool := s.ends.getLast? == some true

/-- A story that has come to its end, where `n` announcements are allowed. -/
structure Told (s : Story) (n : Nat) : Prop where
  atMost : s.ends.length ≤ n
  /-- Nothing is announced after it has been acknowledged. -/
  once : true ∉ s.ends.dropLast
  /-- Nothing is given up before all attempts are used up. -/
  exhausted : s.succeeded = false → s.ends.length = n

/-- A record whose announcements have all failed so far, `attempts` of them. -/
def failing (record : Record) (attempts : Nat) : Story :=
  ⟨record, false, List.replicate (attempts - 1) false⟩

/-- The story after one more announcement. -/
def continued (s : Story) (acknowledged : Bool) : Story :=
  { s with again := s.again ++ [acknowledged] }

theorem ends_failing (record : Record) {attempts : Nat} (h : 1 ≤ attempts) :
    (failing record attempts).ends = List.replicate attempts false := by
  show List.replicate (attempts - 1 + 1) false = _
  rw [Nat.sub_add_cancel h]

theorem ends_continued (s : Story) (acknowledged : Bool) :
    (s.continued acknowledged).ends = s.ends ++ [acknowledged] := rfl

theorem failing_continued (record : Record) {attempts : Nat} (h : 1 ≤ attempts) :
    (failing record attempts).continued false = failing record (attempts + 1) := by
  obtain ⟨k, rfl⟩ := Nat.exists_eq_add_of_le' h
  simp only [continued, failing, Nat.add_sub_cancel, ← List.replicate_succ']

theorem succeeded_continued (s : Story) (acknowledged : Bool) :
    (s.continued acknowledged).succeeded = acknowledged := by
  rw [succeeded, ends_continued, List.getLast?_concat]
  cases acknowledged <;> rfl

theorem succeeded_failing (record : Record) {attempts : Nat} (h : 1 ≤ attempts) :
    (failing record attempts).succeeded = false := by
  rw [succeeded, ends_failing record h, List.getLast?_replicate, if_neg (by omega)]
  rfl

theorem told_of_first (record : Record) {n : Nat} (h : 1 ≤ n) :
    (⟨record, true, []⟩ : Story).Told n :=
  ⟨h, fun h => (nomatch h), fun h => (nomatch h)⟩

theorem told_failing (record : Record) {n : Nat} (h : 1 ≤ n) : (failing record n).Told n := by
  constructor
  case atMost => simp [ends_failing record h]
  case once =>
    rw [ends_failing record h, List.dropLast_replicate]
    exact fun h => Bool.noConfusion (List.eq_of_mem_replicate h)
  case exhausted =>
    intro _
    rw [ends_failing record h, List.length_replicate]

theorem told_continued (record : Record) {attempts n : Nat} (h : 1 ≤ attempts)
    (hlt : attempts < n) : ((failing record attempts).continued true).Told n := by
  constructor
  case atMost =>
    rw [ends_continued, ends_failing record h, List.length_append, List.length_replicate]
    exact hlt
  case once =>
    rw [ends_continued, List.dropLast_concat, ends_failing record h]
    exact fun h => Bool.noConfusion (List.eq_of_mem_replicate h)
  case exhausted =>
    intro hfailed
    rw [succeeded_continued] at hfailed
    cases hfailed

end Story

/-! ## 3. Deeds that follow stories -/

/-- What a run has done is what some stories tell; the first announcements of the records `waiting`
    and the repetitions `underway` have not ended. -/
structure Follows (deeds : List RepublishDeed) (stories : List Story)
    (waiting underway : List Record) : Prop where
  /-- The stories are those of the records on the pages. -/
  seen : (stories.map (·.record) ++ waiting).Perm (deeds.flatMap (·.pageRecords))
  /-- Each record on a page is announced. -/
  announced : deeds.flatMap (·.announced) = deeds.flatMap (·.pageRecords)
  /-- It is announced once more as often as the story says. -/
  repeated : deeds.flatMap (·.repeated) =
    stories.flatMap (fun s => s.again.map fun _ => s.record) ++ underway
  /-- The first announcements end in any order, then come the repetitions, story by story. -/
  outcomes : ∃ firsts, firsts.Perm (stories.map fun s => (s.record, s.first)) ∧
    deeds.flatMap (·.outcome) = firsts ++ stories.flatMap fun s => s.again.map (s.record, ·)

/-- No story has a repetition. -/
def Unrepeated (stories : List Story) : Prop := ∀ s ∈ stories, s.again = []

theorem Unrepeated.flatMap {α : Type} {stories : List Story} (h : Unrepeated stories)
    (f : Story → Bool → α) : (stories.flatMap fun s => s.again.map (f s)) = [] := by
  rw [List.flatMap_eq_nil_iff]
  intro s hs
  rw [h s hs, List.map_nil]

namespace Follows

variable {deeds : List RepublishDeed} {stories : List Story} {waiting underway : List Record}

theorem start : Follows [] [] [] [] := ⟨.nil, rfl, rfl, [], .nil, rfl⟩

/-- More deeds follow the stories if they make the same difference to both sides. -/
theorem extend (h : Follows deeds stories waiting underway) {more : List RepublishDeed}
    {stories' : List Story} {waiting' underway' : List Record}
    (hseen : (stories'.map (·.record) ++ waiting').Perm
      (stories.map (·.record) ++ waiting ++ more.flatMap (·.pageRecords)))
    (hannounced : more.flatMap (·.announced) = more.flatMap (·.pageRecords))
    (hrepeated : stories.flatMap (fun s => s.again.map fun _ => s.record) ++ underway ++
        more.flatMap (·.repeated) =
      stories'.flatMap (fun s => s.again.map fun _ => s.record) ++ underway')
    (houtcomes : ∀ firsts, firsts.Perm (stories.map fun s => (s.record, s.first)) →
      ∃ firsts', firsts'.Perm (stories'.map fun s => (s.record, s.first)) ∧
        firsts ++ stories.flatMap (fun s => s.again.map (s.record, ·)) ++
            more.flatMap (·.outcome) =
          firsts' ++ stories'.flatMap fun s => s.again.map (s.record, ·)) :
    Follows (deeds ++ more) stories' waiting' underway' := by
  obtain ⟨hseen₀, hannounced₀, hrepeated₀, firsts, hfirsts, houtcomes₀⟩ := h
  obtain ⟨firsts', hfirsts', houtcomes'⟩ := houtcomes firsts hfirsts
  constructor
  case seen =>
    rw [List.flatMap_append]
    exact hseen.trans (hseen₀.append_right _)
  case announced => rw [List.flatMap_append, List.flatMap_append, hannounced₀, hannounced]
  case repeated => rw [List.flatMap_append, hrepeated₀, hrepeated]
  case outcomes =>
    exact ⟨firsts', hfirsts', by rw [List.flatMap_append, houtcomes₀, houtcomes']⟩

/-- Deeds that the stories do not tell. -/
theorem append (h : Follows deeds stories waiting underway) {more : List RepublishDeed}
    (hpage : more.flatMap (·.pageRecords) = []) (hannounced : more.flatMap (·.announced) = [])
    (hrepeated : more.flatMap (·.repeated) = []) (houtcome : more.flatMap (·.outcome) = []) :
    Follows (deeds ++ more) stories waiting underway := by
  refine h.extend ?_ (hannounced.trans hpage.symm) ?_ fun firsts hfirsts => ⟨firsts, hfirsts, ?_⟩
  · rw [hpage, List.append_nil]
  · rw [hrepeated, List.append_nil]
  · rw [houtcome, List.append_nil]

/-- A page is read, and its records are announced. -/
theorem page (h : Follows deeds stories [] []) (page : Page) :
    Follows (deeds ++ [.listed (.ok page), .announces page.records]) stories page.records [] := by
  refine h.extend ?seen ?announced ?repeated fun firsts hfirsts => ⟨firsts, hfirsts, ?outcomes⟩
  case seen => simp [RepublishDeed.pageRecords]
  case announced => simp [RepublishDeed.announced, RepublishDeed.pageRecords]
  case repeated => simp [RepublishDeed.repeated]
  case outcomes => simp [RepublishDeed.outcome]

/-- A first announcement ends: there is one more story. -/
theorem first (h : Follows deeds stories waiting []) (hnone : Unrepeated stories)
    {record : Record} {left : List Record} (hleft : waiting.Perm (record :: left)) (how : PutEnd)
    {stories' : List Story}
    (hstories : stories'.Perm (⟨record, how == .acknowledged, []⟩ :: stories)) :
    Follows (deeds ++ [.ended record how]) stories' left [] := by
  have hnone' : Unrepeated stories' := by
    intro s hs
    rcases List.mem_cons.1 (hstories.mem_iff.1 hs) with rfl | hs
    · rfl
    · exact hnone s hs
  -- without repetitions the first announcements are all that has ended, and this one is the last
  refine h.extend ?seen rfl ?repeated fun firsts hfirsts =>
    ⟨firsts ++ [(record, how == .acknowledged)], ?perm, ?outcomes⟩
  case seen =>
    calc stories'.map (·.record) ++ left
      _ ~ record :: (stories.map (·.record) ++ left) := (hstories.map _).append_right left
      _ ~ stories.map (·.record) ++ record :: left := List.perm_middle.symm
      _ ~ stories.map (·.record) ++ waiting := hleft.symm.append_left _
      _ = stories.map (·.record) ++ waiting ++ [] := (List.append_nil _).symm
  case repeated => rw [hnone.flatMap, hnone'.flatMap]; rfl
  case perm =>
    have hmore := hstories.map fun s => (s.record, s.first)
    exact (List.perm_append_singleton _ _).trans ((hfirsts.cons _).trans hmore.symm)
  case outcomes =>
    rw [hnone.flatMap, hnone'.flatMap, List.append_nil, List.append_nil]
    rfl

/-- A record is announced once more. -/
theorem repeats (h : Follows deeds stories [] []) (record : Record) :
    Follows (deeds ++ [.repeats record]) stories [] [record] := by
  refine h.extend ?seen rfl ?repeated fun firsts hfirsts => ⟨firsts, hfirsts, List.append_nil _⟩
  case seen => simp [RepublishDeed.pageRecords]
  case repeated => simp [RepublishDeed.repeated]

/-- A repetition ends, and so far it is the last one. -/
theorem again {closed rest : List Story} {s : Story}
    (h : Follows deeds (closed ++ s :: rest) [] [s.record]) (hnone : Unrepeated rest)
    (acknowledged : Bool) :
    Follows (deeds ++ [.ended s.record (if acknowledged then .acknowledged else .failed)])
      (closed ++ s.continued acknowledged :: rest) [] [] := by
  refine h.extend ?seen rfl ?repeated fun firsts hfirsts => ⟨firsts, ?perm, ?outcomes⟩
  case seen => simp [Story.continued, RepublishDeed.pageRecords]
  case repeated =>
    simp only [List.flatMap_append, List.flatMap_cons, hnone.flatMap]
    simp [Story.continued, RepublishDeed.repeated]
  case perm => simpa [Story.continued] using hfirsts
  case outcomes =>
    simp only [List.flatMap_append, List.flatMap_cons, hnone.flatMap]
    cases acknowledged <;> simp [Story.continued, RepublishDeed.outcome]

end Follows

/-! ## 4. Accounts -/

/-- What the report and the ledger say of the stories that have come to their ends, where `n`
    announcements of a record are allowed. -/
structure Accounts (n : Nat) (deeds : List RepublishDeed) (report : RepublishReport)
    (closed : List Story) : Prop where
  told : ∀ s ∈ closed, s.Told n
  seen : report.seen = (deeds.flatMap (·.pageRecords)).length
  succeeded : report.succeeded = closed.countP (·.succeeded)
  failed : report.failed = closed.countP (!·.succeeded)
  /-- The ledger is asked once for each story that ended badly, and for no other. -/
  noted : (deeds.flatMap (·.noted)).map (fun f => (f.id, f.count.toNat)) =
    (closed.filter (!·.succeeded)).map fun s => (s.record.id, n)

namespace Accounts

variable {n : Nat} {deeds : List RepublishDeed} {report : RepublishReport} {closed : List Story}

/-- Deeds that are no accounts. -/
theorem append (h : Accounts n deeds report closed) {more : List RepublishDeed}
    (hpage : more.flatMap (·.pageRecords) = []) (hnoted : more.flatMap (·.noted) = []) :
    Accounts n (deeds ++ more) report closed := by
  obtain ⟨htold, hseen, hsucceeded, hfailed, hnoted₀⟩ := h
  refine ⟨htold, ?_, hsucceeded, hfailed, ?_⟩
  · rw [List.flatMap_append, hpage, List.append_nil, hseen]
  · rw [List.flatMap_append, hnoted, List.append_nil, hnoted₀]

/-- The size of the store is no account of the stories. -/
theorem counted (h : Accounts n deeds report closed) (recordCount : Nat) :
    Accounts n deeds { report with recordCount } closed := ⟨h.1, h.2, h.3, h.4, h.5⟩

/-- A page is read. -/
theorem page (h : Accounts n deeds report closed) (page : Page) (batches : Nat) :
    Accounts n (deeds ++ [.listed (.ok page), .announces page.records])
      { report with batches, seen := report.seen + page.records.length } closed := by
  obtain ⟨htold, hseen, hsucceeded, hfailed, hnoted⟩ := h
  refine ⟨htold, ?_, hsucceeded, hfailed, ?_⟩
  · simp [List.flatMap_append, RepublishDeed.pageRecords, hseen]
  · rw [List.flatMap_append, ← hnoted]
    simp [RepublishDeed.noted]

/-- A story ends well. -/
theorem succeed (h : Accounts n deeds report closed) {s : Story} (hs : s.Told n)
    (hgood : s.succeeded = true) :
    Accounts n deeds { report with succeeded := report.succeeded + 1 } (closed ++ [s]) := by
  obtain ⟨htold, hseen, hsucceeded, hfailed, hnoted⟩ := h
  refine ⟨?_, hseen, ?_, ?_, ?_⟩
  · exact List.forall_mem_append.2 ⟨htold, List.forall_mem_singleton.2 hs⟩
  · simp [hsucceeded, hgood]
  · simp [hfailed, hgood]
  · simp [hnoted, hgood]

/-- A story ends badly. -/
theorem giveUp (h : Accounts n deeds report closed) {s : Story} (hs : s.Told n)
    (hbad : s.succeeded = false) (hn : n < UInt32.size) :
    Accounts n (deeds ++ [.notes ⟨s.record.id, UInt32.ofNat n⟩])
      { report with failed := report.failed + 1 } (closed ++ [s]) := by
  obtain ⟨htold, hseen, hsucceeded, hfailed, hnoted⟩ := h
  have hcount : (UInt32.ofNat n).toNat = n := UInt32.toNat_ofNat_of_lt' hn
  refine ⟨?_, ?_, ?_, ?_, ?_⟩
  · exact List.forall_mem_append.2 ⟨htold, List.forall_mem_singleton.2 hs⟩
  · simp [List.flatMap_append, RepublishDeed.pageRecords, hseen]
  · simp [hsucceeded, hbad]
  · simp [hfailed, hbad]
  · rw [List.flatMap_append, List.map_append, hnoted]
    simp [RepublishDeed.noted, hbad, hcount]

end Accounts

end SignedRecords
