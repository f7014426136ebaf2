import SignedRecords.Proofs.Authenticity

/-!
# What is cached and stored is read back

The same octets serve as the row of a record, as its cached response, and as what it is read from
under a key. A service writes only rows that can be read. It caches what it has written, what its
store answers and what its lookups answer, and only the last is never checked: an answer whose value
has more than 1000 octets is cached where it fits, and dropped by the next read of its id. Where
lookups go over the DHT there are no such answers, since items are verified there.

Main statement: `wire_forms_read_back`.
-/

namespace SignedRecords

open ServiceMachine

/-! ## 1. Values that are no responses -/

/-- The octets of a response fail to be read exactly where the value is too large. -/
theorem Response.ofBytes_toBytes_eq_error {r : Response} {e : RecordError} :
    ofBytes r.toBytes = .error e ↔
      maxValueSize < r.value.length ∧ e = .valueTooLarge r.value.length := by
  have hlength := length_toBytes r
  by_cases hfits : r.value.length ≤ maxValueSize
  · rw [ofBytes_toBytes hfits]
    exact ⟨nofun, fun h => absurd hfits (Nat.not_le_of_lt h.1)⟩
  · unfold ofBytes
    rw [dif_neg (by omega), if_pos (by omega), hlength, Nat.add_sub_cancel_left, Except.error.injEq]
    exact ⟨fun h => ⟨Nat.lt_of_not_le hfits, h.symm⟩, fun h => h.2.symm⟩

/-- What is wrong with a cached response is wrong with the value of its entry. -/
theorem TtlCache.entry_of_corrupt {c : TtlCache} {id : String} {now : Nat} {e : RecordError}
    (h : (c.response id now).2 = .error e) :
    ∃ entry ∈ c.entries, entry.key = id ∧ Response.ofBytes entry.value = .error e := by
  unfold response at h
  split at h
  · cases h
  · rename_i c' value hget
    obtain ⟨entry, hfind, rfl, -⟩ := entry_of_get (congrArg Prod.snd hget)
    split at h
    · cases h
    · rename_i hread
      cases h
      exact ⟨entry, List.mem_of_find?_eq_some hfind, by simpa using List.find?_some hfind, hread⟩

/-- A live value that is no response is refused for what is wrong with it. -/
theorem TtlCache.response_of_get {c : TtlCache} {id : String} {now : Nat} {value : Bytes}
    {e : RecordError} (hget : (c.get id now).2 = some value)
    (hread : Response.ofBytes value = .error e) : (c.response id now).2 = .error e := by
  unfold response
  generalize c.get id now = found at hget
  obtain ⟨c', value'⟩ := found
  obtain rfl : value' = some value := hget
  simp only [hread]

/-! ## 2. What a history leaves -/

namespace ServiceMachine

variable {m : ServiceMachine} {history : History}

/-- All that is cached after a history was brought in it, where nothing was cached at the start. -/
theorem brought_of_cached (hempty : m.service.responses.entries = []) {entry : CacheEntry}
    (h : entry ∈ (m.after history).service.responses.entries) :
    ∃ b ∈ m.broughtIn history, b.id = entry.key ∧ b.response.toBytes = entry.value := by
  induction history with
  | nil =>
    rw [after, hempty] at h
    cases h
  | cons e past ih =>
    obtain ⟨now, event⟩ := e
    rcases mem_responses_step h with h | ⟨b, hb, hkey, hvalue⟩
    · obtain ⟨b, hb, hentry⟩ := ih h
      exact ⟨b, List.mem_append_right _ hb, hentry⟩
    · exact ⟨b, List.mem_append_left _ (Option.mem_toList.2 hb), hkey.symm, hvalue.symm⟩

/-- After an event a store answers with the record that the event has published, or as before. -/
theorem read_step (hv : m.WritesValid) (now : Nat) (event : ServiceEvent) (id : String) :
    (∃ r, m.brings? event = some (.published id r) ∧ r.id = id ∧ r.validate = .ok () ∧
        (m.step now event).1.service.store.read id = .ok (some r)) ∨
      ((∀ r, m.brings? event ≠ some (.published id r)) ∧
        (m.step now event).1.service.store.read id = m.service.store.read id) := by
  by_cases hb : ∃ id' r, m.brings? event = some (.published id' r)
  · obtain ⟨id', r, hb⟩ := hb
    obtain ⟨rfl, hvalid⟩ := valid_of_published hv hb
    have hread := Store.read_of_write (step_written now hb).1 hvalid id
    by_cases hid : id = r.id
    · rw [if_pos hid] at hread
      subst hid
      exact .inl ⟨r, hb, rfl, hvalid, hread⟩
    · rw [if_neg hid] at hread
      refine .inr ⟨fun r' hr' => hid ?_, hread⟩
      rw [hb] at hr'
      cases hr'
      rfl
  · refine .inr ⟨fun r hr => hb ⟨id, r, hr⟩, ?_⟩
    rw [step_store fun id' r hr => hb ⟨id', r, hr⟩]

/-- After a history a store answers with a record that was published in it, or as at the start. -/
theorem read_after (hv : m.WritesValid) (history : History) (id : String) :
    (∃ r, .published id r ∈ m.broughtIn history ∧ r.id = id ∧ r.validate = .ok () ∧
        (m.after history).service.store.read id = .ok (some r)) ∨
      ((∀ r, .published id r ∉ m.broughtIn history) ∧
        (m.after history).service.store.read id = m.service.store.read id) := by
  induction history with
  | nil => exact .inr ⟨fun r h => (nomatch h), rfl⟩
  | cons e past ih =>
    obtain ⟨now, event⟩ := e
    rcases read_step (writesValid_after hv past) now event id with ⟨r, hb, hr⟩ | ⟨hno, hsame⟩
    · exact .inl ⟨r, List.mem_append_left _ (Option.mem_toList.2 hb), hr⟩
    · rw [after, hsame]
      rcases ih with ⟨r, hr, hrest⟩ | ⟨hnone, hstart⟩
      · exact .inl ⟨r, List.mem_append_right _ hr, hrest⟩
      · refine .inr ⟨fun r hr => ?_, hstart⟩
        rcases List.mem_append.1 hr with hr | hr
        · exact hno r (Option.mem_toList.1 hr)
        · exact hnone r hr

end ServiceMachine

/-! ## 3. Rows -/

/-- The rows of a store; none of one that keeps records as they are. -/
def Store.wires : Store → List (Bytes × Bytes)
  | .memory _ => []
  | .rows b => b.records.rows

/-- A row that a record was written to. -/
structure Record.IsRow (r : Record) (row : Bytes × Bytes) : Prop where
  valid : r.validate = .ok ()
  key : row.1 = Bytes.ofText r.id
  wire : row.2 = r.toWire

/-- Such a row reads as its record. -/
theorem Record.IsRow.readRow {r : Record} {row : Bytes × Bytes} (h : r.IsRow row) :
    RowStore.readRow row.1 row.2 = .ok r := by
  rw [h.key, h.wire]
  exact RowStore.readRow_toWire h.valid

/-- A write adds only the row of its record. -/
theorem Store.mem_wires_of_write {s s' : Store} {r : Record} (hw : s.write r = .ok s')
    (hv : r.validate = .ok ()) {row : Bytes × Bytes} (h : row ∈ s'.wires) :
    row ∈ s.wires ∨ r.IsRow row := by
  cases s with
  | memory t =>
    simp only [write] at hw
    cases ht : t.write r with
    | error e =>
      rw [ht] at hw
      cases hw
    | ok t' =>
      rw [ht] at hw
      cases hw
      cases h
  | rows b =>
    simp only [write] at hw
    cases hb : b.write r with
    | error e =>
      rw [hb] at hw
      cases hw
    | ok b' =>
      rw [hb] at hw
      cases hw
      simp only [RowStore.write] at hb
      split at hb
      · cases hb
      · split at hb
        · cases hb
        · cases hb
          exact .inl h
        · cases hb
          rcases Table.mem_insertRow h with rfl | h
          · exact .inr ⟨hv, rfl, rfl⟩
          · exact .inl h

theorem ServiceMachine.wires_after {m : ServiceMachine} (hv : m.WritesValid) {history : History}
    {row : Bytes × Bytes} (h : row ∈ (m.after history).service.store.wires) :
    row ∈ m.service.store.wires ∨ ∃ r, .published r.id r ∈ m.broughtIn history ∧ r.IsRow row := by
  induction history with
  | nil => exact .inl h
  | cons e past ih =>
    obtain ⟨now, event⟩ := e
    have hearlier : row ∈ (m.after past).service.store.wires → row ∈ m.service.store.wires ∨
        ∃ r, .published r.id r ∈ m.broughtIn ((now, event) :: past) ∧ r.IsRow row := fun h =>
      (ih h).imp_right fun ⟨r, hr, hrow⟩ => ⟨r, List.mem_append_right _ hr, hrow⟩
    by_cases hb : ∃ id r, (m.after past).brings? event = some (.published id r)
    · obtain ⟨id, r, hb⟩ := hb
      obtain ⟨rfl, hvalid⟩ := valid_of_published (writesValid_after hv past) hb
      rcases Store.mem_wires_of_write (step_written now hb).1 hvalid h with h | h
      · exact hearlier h
      · exact .inr ⟨r, List.mem_append_left _ (Option.mem_toList.2 hb), h⟩
    · rw [after, step_store fun id r hr => hb ⟨id, r, hr⟩] at h
      exact hearlier h

/-! ## 4. Large values -/

/-- Where a value of too many octets can come from, when a service caches it for an id: a lookup of
    the id has answered it, or the store had it for the id at the start. -/
inductive LargeOrigin (start : Service) (history : History) (id : String) (size : Nat) : Prop where
  | answered {later past : History} {now call : Nat} {full : FullGet}
      (hsplit : history = later ++ (now, .lookup call (.answers (.ok full))) :: past)
      (hwaits : ((ofService start).after past).waiting? call = some (.lookup id))
      (howned : full.isMutable = true) (hsize : full.response.value.length = size) :
      LargeOrigin start history id size
  | stored {record : Record} (hread : start.store.read id = .ok (some record))
      (hsize : record.value.length = size) : LargeOrigin start history id size

/-- What a service caches fits, apart from unchecked answers and what its store had at the start. -/
theorem largeOrigin_of_brought {start : Service} {history : History} {b : Brought}
    (hb : b ∈ (ofService start).broughtIn history)
    (hlarge : maxValueSize < b.response.value.length) :
    LargeOrigin start history b.id b.response.value.length := by
  obtain ⟨later, now, event, past, rfl, hbrings⟩ := split_of_broughtIn hb
  have hv := writesValid_after (writesValid_ofService start) past
  have hvalid : ∀ r : Record, r.validate = .ok () → r.response.value.length ≤ maxValueSize :=
    fun r h => (Record.validate_eq_ok.1 h).1
  cases b with
  | published id record =>
    exact absurd (hvalid record (valid_of_published hv hbrings).2) (Nat.not_le_of_lt hlarge)
  | resolved id response =>
    obtain ⟨call, full, rfl, rfl, howned, hwaits⟩ := answered_of_resolved hbrings
    exact .answered rfl hwaits howned rfl
  | restored id record =>
    have hread := (read_of_restored hbrings).1
    rcases read_after (writesValid_ofService start) past id with ⟨r, -, -, hr, hread'⟩ | ⟨-, hsame⟩
    · rw [hread] at hread'
      obtain rfl := Option.some.inj (Except.ok.inj hread')
      exact absurd (hvalid record hr) (Nat.not_le_of_lt hlarge)
    · exact .stored (hsame ▸ hread) rfl

/-- What is answered over the DHT fits, and so do valid records. -/
theorem LargeOrigin.size_le {items : Item → Prop} {start : Service} {history : History}
    {id : String} {size : Nat} (h : LargeOrigin start history id size)
    (hdht : OverDht items (ofService start) history) (hstore : start.store.Genuine) :
    size ≤ maxValueSize := by
  cases h with
  | answered hsplit hwaits howned hsize =>
    subst hsplit
    obtain ⟨item, target, -, -, hholds, rfl⟩ := (hdht.turn hwaits).answered
    exact hsize ▸ Item.fits_of_verify (Bool.and_eq_true_iff.1 hholds).2
  | stored hread hsize => exact hsize ▸ (Record.validate_eq_ok.1 (hstore _ _ hread).2).1

/-- A cached value that is no response is one that is too large. -/
theorem large_of_corrupt {start : Service} (hempty : start.responses.entries = [])
    {history : History} {id : String} {now : Nat} {e : RecordError}
    (h : (((ofService start).after history).service.responses.response id now).2 = .error e) :
    ∃ size, maxValueSize < size ∧ e = .valueTooLarge size ∧ LargeOrigin start history id size := by
  obtain ⟨entry, hmem, rfl, hread⟩ := TtlCache.entry_of_corrupt h
  obtain ⟨b, hb, hid, hvalue⟩ := brought_of_cached hempty hmem
  rw [← hvalue] at hread
  obtain ⟨hlarge, rfl⟩ := Response.ofBytes_toBytes_eq_error.1 hread
  exact ⟨_, hlarge, rfl, hid ▸ largeOrigin_of_brought hb hlarge⟩

/-! ## 5. All forms -/

/-- A record is read from octets under a key where these have 32 octets, the form has between 72
    and 1072, and they are the key and the stored form of the record, which is valid. So every valid
    record is read back. Every response that fits is read back, and what is read as a response is
    written again as it was.

    For a service whose cache is empty at the start, and whatever happens to it: a cached response
    fails to be read only where its value has more than 1000 octets, and then a lookup of the id has
    answered it, or the store had it at the start. It never does where the lookups have gone over
    the DHT and the store had valid records only. Every row that was not there at the start reads as
    the valid record that was written to it, and for every id the store answers with a valid record
    that was published, or as it did at the start. -/
theorem wire_forms_read_back :
    (∀ key wire r, Record.ofWire key wire = .ok r ↔ key.length = 32 ∧ 72 ≤ wire.length ∧
        wire.length ≤ 1072 ∧ r.key.toList = key ∧ r.toWire = wire ∧ r.validate = .ok ()) ∧
      (∀ r : Record, r.validate = .ok () → Record.ofWire r.key.toList r.toWire = .ok r) ∧
      (∀ x : Response, x.value.length ≤ 1000 → Response.ofBytes x.toBytes = .ok x) ∧
      (∀ bs x, Response.ofBytes bs = .ok x → x.toBytes = bs) ∧
      ∀ (start : Service) (history : History), start.responses.entries = [] →
        let s := ((ofService start).after history).service
        (∀ id now e, (s.responses.response id now).2 = .error e → ∃ size, 1000 < size ∧
          e = .valueTooLarge size ∧ LargeOrigin start history id size) ∧
        (∀ items, OverDht items (ofService start) history → start.store.Genuine →
          ∀ id now e, (s.responses.response id now).2 ≠ .error e) ∧
        (∀ row ∈ s.store.wires, row ∈ start.store.wires ∨ ∃ r, r.validate = .ok () ∧
          row = (Bytes.ofText r.id, r.toWire) ∧ RowStore.readRow row.1 row.2 = .ok r) ∧
        ∀ id, (∃ r, r.id = id ∧ r.validate = .ok () ∧ s.store.read id = .ok (some r)) ∨
          s.store.read id = start.store.read id := by
  refine ⟨fun key wire r => ?_, fun r => Record.ofWire_toWire, fun x => Response.ofBytes_toBytes,
    fun bs x h => (Response.ofBytes_eq_ok.1 h).2, fun start history hempty => ⟨fun id now e h => ?_,
      fun items hdht hstore id now e h => ?_, fun row hrow => ?_, fun id => ?_⟩⟩
  · rw [Record.ofWire_eq_ok]
    constructor
    · rintro ⟨hvalid, rfl, rfl⟩
      have hfits := (Record.validate_eq_ok.1 hvalid).1
      have hlength : r.toWire.length = headerSize + r.value.length := Response.length_toBytes _
      unfold headerSize at hlength
      unfold maxValueSize at hfits
      exact ⟨r.key.length_eq, by omega, by omega, rfl, rfl, hvalid⟩
    · rintro ⟨-, -, -, hkey, hwire, hvalid⟩
      exact ⟨hvalid, hkey, hwire⟩
  · exact large_of_corrupt hempty h
  · obtain ⟨size, hlarge, -, horigin⟩ := large_of_corrupt hempty h
    exact absurd (horigin.size_le hdht hstore) (Nat.not_le_of_lt hlarge)
  · rcases wires_after (writesValid_ofService start) hrow with h | ⟨r, -, h⟩
    · exact .inl h
    · exact .inr ⟨r, h.valid, Prod.ext h.key h.wire, h.readRow⟩
  · rcases read_after (writesValid_ofService start) history id with ⟨r, -, hid, hvalid, h⟩ | ⟨-, h⟩
    · exact .inl ⟨r, hid, hvalid, h⟩
    · exact .inr h

/-- An answer with a value of 1001 octets. -/
def largeAnswer : FullGet := ⟨⟨List.replicate 1001 97, 1, .zero 64⟩, true⟩

/-- A new service, after a lookup has answered it. -/
def largelyAnswered : ServiceMachine :=
  (ofService (.fresh .standard (.memory .empty))).after
    [(1, .lookup 0 (.answers (.ok largeAnswer))), (0, .get 0 (recordId neutralKey))]

/-- The answer is cached, but it is not read back, and the next get looks for the id again. -/
theorem large_answer_not_read_back :
    (largelyAnswered.service.responses.get (recordId neutralKey) 2).2 =
        some largeAnswer.response.toBytes ∧
      (largelyAnswered.service.responses.response (recordId neutralKey) 2).2 =
        .error (.valueTooLarge 1001) ∧
      (largelyAnswered.step 2 (.get 1 (recordId neutralKey))).2 =
        [.waits 1 (.lookup (recordId neutralKey))] := by
  have hget : (largelyAnswered.service.responses.get (recordId neutralKey) 2).2 =
      some largeAnswer.response.toBytes := by
    decide +kernel
  have hsize : largeAnswer.response.value.length = 1001 := List.length_replicate
  have hread : Response.ofBytes largeAnswer.response.toBytes = .error (.valueTooLarge 1001) := by
    rw [Response.ofBytes_toBytes_eq_error, hsize]
    exact ⟨by decide, rfl⟩
  exact ⟨hget, TtlCache.response_of_get hget hread, by decide +kernel⟩

end SignedRecords
