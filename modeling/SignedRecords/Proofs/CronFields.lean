import Mathlib.Data.List.Forall2
import SignedRecords.Cron.Schedule

/-!
# The fields of a text

White space between fields is optional, so their number is not plain to see. It is fixed all the
same: whatever the units of its fields are, a text that is read to its end has the same fields, each
with the values that it has in its unit. And a value goes down with a field from one unit to the
next: a field of years that has the second year has the second value of every unit in whose place it
can stand, and so has, from each unit to the one below, the field with the value 2.

Main statements: `fields_unique` and `Carries.field`.
-/

namespace SignedRecords.Cron

open Reader

/-! ## 1. One text, one list of fields -/

/-- Signs that no field begins with: those that go on with what stands before them, and that of a
    shorthand. -/
def foreignSigns : List Char := [',', '-', '/', '@']

section

variable {u u' : TimeUnit} {cs rest rest' : List Char}

/-- Where no question mark stands, every unit has the same sign for everything. -/
theorem everything_of_head (h : cs.head? ≠ some '?') (u : TimeUnit) :
    everything u cs = exactly '*' cs := by
  unfold everything
  split
  · obtain _ | ⟨c, cs⟩ := cs
    · rfl
    · have hc : '?' ≠ c := fun heq => h (by rw [heq, List.head?_cons])
      by_cases hstar : '*' = c
      · subst hstar
        rfl
      · simp [either, exactly, hstar, hc]
  · rfl

/-- An element depends on the unit only through the sign for everything. -/
theorem element_congr (h : everything u cs = everything u' cs) :
    element u cs = element u' cs := by
  simp only [element, span, either, both, map, h]

/-- A question mark begins no element of a unit that does not know it. -/
theorem element_question (h : u.anyMark = false) (cs : List Char) :
    element u ('?' :: cs) = none := by
  simp [element, span, everything, h, either, both, map, exactly, dashed, number, name, spaced, run,
    isWhite]

/-- No element begins with a sign that goes on with something. -/
theorem element_foreign (u : TimeUnit) {c : Char} (hc : c ∈ foreignSigns) (cs : List Char) :
    element u (c :: cs) = none := by
  simp only [foreignSigns, List.mem_cons, List.not_mem_nil, or_false] at hc
  have hall : everything u (c :: cs) = none := by
    rw [everything_of_head (by rcases hc with rfl | rfl | rfl | rfl <;> simp)]
    rcases hc with rfl | rfl | rfl | rfl <;> rfl
  rcases hc with rfl | rfl | rfl | rfl <;>
    simp [element, span, hall, either, both, map, dashed, number, name, spaced, run, isWhite]

/-- A unit that knows the signs of another reads the elements that the other one reads. -/
theorem element_of_element (hmark : u.anyMark = true → u'.anyMark = true) {e : Element}
    (h : element u cs = some (e, rest)) : element u' cs = some (e, rest) := by
  by_cases hhead : cs.head? = some '?'
  · obtain ⟨tail, rfl⟩ : ∃ tail, cs = '?' :: tail := ⟨_, List.eq_cons_of_mem_head? hhead⟩
    rcases hu : u.anyMark with _ | _
    · rw [element_question hu] at h
      cases h
    · rw [← h]
      exact element_congr (by simp only [everything, hu, hmark hu])
  · rw [← h]
    exact element_congr (by rw [everything_of_head hhead, everything_of_head hhead])

theorem comma_element_eq_some {e : Element} :
    both (fun _ e => e) (exactly ',') (element u) cs = some (e, rest) ↔
      ∃ tail, cs = ',' :: tail ∧ element u tail = some (e, rest) := by
  obtain _ | ⟨c, cs⟩ := cs
  · simp [both, exactly]
  · by_cases hc : ',' = c
    · subst hc
      rcases h : element u cs with _ | ⟨e', after⟩ <;> simp [both, exactly, h]
    · simp [both, exactly, hc, Ne.symm hc]

theorem moreElements_of_moreElements (hmark : u.anyMark = true → u'.anyMark = true) {n : Nat}
    {es : List Element} (h : moreElements u n cs = some (es, rest))
    (hrest : rest.head? ≠ some ',') : moreElements u' n cs = some (es, rest) := by
  induction n generalizing cs es with
  | zero => exact h
  | succ n ih =>
    simp only [moreElements] at h ⊢
    rcases hnext : both (fun _ e => e) (exactly ',') (element u) cs with _ | ⟨e, after⟩
    · -- the list has ended, and no comma follows that another unit could go on after
      rw [hnext] at h
      cases h
      have hnext' : both (fun _ e => e) (exactly ',') (element u') rest = none :=
        Option.eq_none_iff_forall_not_mem.2 fun x hx => by
          obtain ⟨tail, rfl, -⟩ := comma_element_eq_some.1 hx
          exact hrest rfl
      rw [hnext']
    · rw [hnext] at h
      obtain ⟨tail, rfl, he⟩ := comma_element_eq_some.1 hnext
      rw [comma_element_eq_some.2 ⟨tail, rfl, element_of_element hmark he⟩]
      simp only [map] at h ⊢
      rcases hmore : moreElements u n after with _ | ⟨others, last⟩
      · rw [hmore] at h
        cases h
      · rw [hmore] at h
        cases h
        rw [ih hmore]

theorem field_eq_some {f : Field} :
    field u cs = some (f, rest) ↔ ∃ e es mid after,
      element u (cs.dropWhile isWhite) = some (e, mid) ∧
      moreElements u (cs.dropWhile isWhite).length mid = some (es, after) ∧
      f = e :: es ∧ rest = after.dropWhile isWhite := by
  rcases he : element u (cs.dropWhile isWhite) with _ | ⟨e, mid⟩
  · simp [field, spaced, both, he]
  · rcases hes : moreElements u (cs.dropWhile isWhite).length mid with _ | ⟨es, after⟩
    · simp [field, spaced, both, he, hes]
    · simp [field, spaced, both, he, hes, eq_comm]

theorem head?_of_dropWhile {c : Char} (hc : isWhite c = false) (h : cs.head? = some c) :
    (cs.dropWhile isWhite).head? = some c := by
  obtain _ | ⟨d, cs⟩ := cs
  · cases h
  · cases h
    rw [List.dropWhile_cons_of_neg (by simp [hc]), List.head?_cons]

/-- A unit that knows the signs of another reads the fields that the other one reads, as long as no
    comma follows. -/
theorem field_of_field (hmark : u.anyMark = true → u'.anyMark = true) {f : Field}
    (h : field u cs = some (f, rest)) (hrest : rest.head? ≠ some ',') :
    field u' cs = some (f, rest) := by
  obtain ⟨e, es, mid, after, he, hes, rfl, rfl⟩ := field_eq_some.1 h
  refine field_eq_some.2 ⟨e, es, mid, after, element_of_element hmark he, ?_, rfl, rfl⟩
  exact moreElements_of_moreElements hmark hes fun hcomma =>
    hrest (head?_of_dropWhile (by decide) hcomma)

/-- What a text has as its first field does not depend on the unit. -/
theorem field_unique {f f' : Field} (h : field u cs = some (f, rest))
    (h' : field u' cs = some (f', rest')) (hrest : rest.head? ≠ some ',')
    (hrest' : rest'.head? ≠ some ',') : f = f' ∧ rest = rest' := by
  by_cases hmark : u.anyMark = true → u'.anyMark = true
  · have := (field_of_field hmark h hrest).symm.trans h'
    simpa using this
  · have hmark' : u'.anyMark = true → u.anyMark = true := fun _ =>
      (Classical.not_imp.1 hmark).1
    have := (field_of_field hmark' h' hrest').symm.trans h
    simpa [eq_comm] using this

end

theorem field_nil (u : TimeUnit) : field u [] = none := by
  have hall : everything u [] = none := everything_of_head (by simp) u
  simp [field, element, span, hall, either, both, map, dashed, number, name, spaced, run]

/-- Fields, one for each unit, and the values that they have in it. -/
inductive Values : List TimeUnit → List Field → List (List Nat) → Prop
  | nil : Values [] [] []
  | cons {u us f fs v vs} :
    fieldValues? u f = some v → Values us fs vs → Values (u :: us) (f :: fs) (v :: vs)

section

variable {u : TimeUnit} {us us' : List TimeUnit} {cs rest : List Char} {vs vs' : List (List Nat)}

theorem fields_cons_eq_some :
    fields (u :: us) cs = some (vs, rest) ↔ ∃ f mid v others,
      field u cs = some (f, mid) ∧ fieldValues? u f = some v ∧
      fields us mid = some (others, rest) ∧ vs = v :: others := by
  rcases hf : field u cs with _ | ⟨f, mid⟩
  · simp [fields, hf]
  · rcases hv : fieldValues? u f with _ | v
    · simp [fields, hf, hv]
    · rcases hothers : fields us mid with _ | ⟨others, after⟩
      · simp [fields, map, hf, hv, hothers]
      · simp [fields, map, hf, hv, hothers, eq_comm, and_comm]

theorem ofUnits?_eq_some : Schedule.ofUnits? us cs = some vs ↔ fields us cs = some (vs, []) := by
  unfold Schedule.ofUnits?
  split <;> simp_all

/-- A text that is read to its end begins with no sign that goes on with something. -/
theorem head?_of_fields (h : fields us cs = some (vs, [])) {c : Char} (hc : cs.head? = some c) :
    c ∉ foreignSigns := by
  intro hjoin
  obtain ⟨tail, rfl⟩ : ∃ tail, cs = c :: tail := ⟨_, List.eq_cons_of_mem_head? hc⟩
  obtain _ | ⟨u, us⟩ := us
  · cases h
  · obtain ⟨f, mid, v, others, hf, -⟩ := fields_cons_eq_some.1 h
    obtain ⟨e, es, mid, after, he, -⟩ := field_eq_some.1 hf
    have hwhite : isWhite c = false := by
      simp only [foreignSigns, List.mem_cons, List.not_mem_nil, or_false] at hjoin
      rcases hjoin with rfl | rfl | rfl | rfl <;> rfl
    rw [List.dropWhile_cons_of_neg (by simp [hwhite]), element_foreign u hjoin] at he
    cases he

/-- A text that is read to its end has the same fields whatever their units are. -/
theorem fields_unique (h : fields us cs = some (vs, [])) (h' : fields us' cs = some (vs', [])) :
    ∃ fs, Values us fs vs ∧ Values us' fs vs' := by
  induction us generalizing us' cs vs vs' with
  | nil =>
    cases h
    obtain _ | ⟨u', us'⟩ := us'
    · cases h'
      exact ⟨[], .nil, .nil⟩
    · obtain ⟨f, mid, v, others, hf, -⟩ := fields_cons_eq_some.1 h'
      rw [field_nil] at hf
      cases hf
  | cons u us ih =>
    obtain ⟨f, mid, v, others, hf, hv, hothers, rfl⟩ := fields_cons_eq_some.1 h
    obtain _ | ⟨u', us'⟩ := us'
    · cases h'
      rw [field_nil] at hf
      cases hf
    · obtain ⟨f', mid', v', others', hf', hv', hothers', rfl⟩ := fields_cons_eq_some.1 h'
      have hcomma {us : List TimeUnit} {mid : List Char} {vs : List (List Nat)}
          (h : fields us mid = some (vs, [])) : mid.head? ≠ some ',' := fun hhead =>
        head?_of_fields h hhead (by decide)
      obtain ⟨rfl, rfl⟩ := field_unique hf hf' (hcomma hothers) (hcomma hothers')
      obtain ⟨fs, hvalues, hvalues'⟩ := ih hothers hothers'
      exact ⟨f :: fs, .cons hv hvalues, .cons hv' hvalues'⟩

end

namespace Values

variable {us us' : List TimeUnit} {fs : List Field} {vs : List (List Nat)}

theorem length_eq (h : Values us fs vs) : fs.length = us.length := by
  induction h with
  | nil => rfl
  | cons _ _ ih => rw [List.length_cons, List.length_cons, ih]

end Values

/-- A text is read to its end with one number of fields only. -/
theorem Schedule.length_unique {us us' : List TimeUnit} {cs : List Char}
    {vs vs' : List (List Nat)} (h : Schedule.ofUnits? us cs = some vs)
    (h' : Schedule.ofUnits? us' cs = some vs') :
    us.length = us'.length := by
  obtain ⟨fs, hvalues, hvalues'⟩ := fields_unique (ofUnits?_eq_some.1 h) (ofUnits?_eq_some.1 h')
  rw [← hvalues.length_eq, hvalues'.length_eq]

/-! ## 2. The values of a field -/

theorem TimeUnit.mem_all {u : TimeUnit} {n : Nat} : n ∈ u.all ↔ u.low ≤ n ∧ n ≤ u.high := by
  simp only [TimeUnit.all, List.mem_range'_1]
  omega

theorem TimeUnit.value?_eq_some {u : TimeUnit} {m n : Nat} :
    u.value? m = some n ↔ m = n ∧ n ∈ u.all := by
  simp only [TimeUnit.value?, TimeUnit.mem_all]
  split <;> simp_all <;> omega

theorem between?_eq_some {first last : Nat} {values : List Nat} :
    between? first last = some values ↔
      first ≤ last ∧ values = List.range' first (last + 1 - first) := by
  unfold between?
  split
  · simp_all [eq_comm]
  · refine ⟨fun h => ?_, fun h => ?_⟩
    · cases h
    · omega

/-- Every `step`-th of some numbers in a row. -/
theorem mem_everyNth_range' {step first count n : Nat} :
    n ∈ everyNth step (List.range' first count) ↔
      first ≤ n ∧ n < first + count ∧ (n - first) % step = 0 := by
  have hmem : n ∈ everyNth step (List.range' first count) ↔
      ∃ i, (List.range' first count)[i]? = some n ∧ i % step = 0 := by
    simp [everyNth, List.mem_zipIdx_iff_getElem?]
  rw [hmem]
  constructor
  · rintro ⟨i, hi, hstep⟩
    obtain ⟨hlt, rfl⟩ := List.getElem?_eq_some_iff.1 hi
    simp only [List.length_range', List.getElem_range'] at hlt ⊢
    refine ⟨by omega, by omega, ?_⟩
    rwa [show first + 1 * i - first = i by omega]
  · rintro ⟨hfirst, hlast, hstep⟩
    refine ⟨n - first, List.getElem?_eq_some_iff.2 ⟨?_, ?_⟩, hstep⟩
    · rw [List.length_range']
      omega
    · rw [List.getElem_range']
      omega

theorem mem_of_mapM {f : Field} {g : Element → Option (List Nat)} {parts : List (List Nat)}
    (h : f.mapM g = some parts) (part : List Nat) :
    part ∈ parts ↔ ∃ e ∈ f, g e = some part := by
  induction f generalizing parts with
  | nil =>
    cases h
    simp
  | cons e f ih =>
    rw [List.mapM_cons] at h
    obtain ⟨first, hfirst, h⟩ := Option.bind_eq_some_iff.1 h
    obtain ⟨others, hothers, h⟩ := Option.bind_eq_some_iff.1 h
    cases h
    rw [List.mem_cons, ih hothers, List.exists_mem_cons_iff, hfirst, Option.some.injEq]
    exact or_congr_left eq_comm

theorem mem_fieldValues {u : TimeUnit} {f : Field} {values : List Nat}
    (h : fieldValues? u f = some values) {n : Nat} :
    n ∈ values ↔ n ∈ u.all ∧ ∃ e ∈ f, ∃ part, e.values? u = some part ∧ n ∈ part := by
  obtain ⟨parts, hparts, rfl⟩ := Option.map_eq_some_iff.1 h
  rw [List.mem_filter, List.any_eq_true]
  refine and_congr_right fun _ => ⟨?_, ?_⟩
  · rintro ⟨part, hpart, hn⟩
    obtain ⟨e, he, heq⟩ := (mem_of_mapM hparts part).1 hpart
    exact ⟨e, he, part, heq, List.contains_iff_mem.1 hn⟩
  · rintro ⟨e, he, part, heq, hn⟩
    exact ⟨part, (mem_of_mapM hparts part).2 ⟨e, he, heq⟩, List.contains_iff_mem.2 hn⟩

/-- Every element of a field that has values has values. -/
theorem values_of_fieldValues {u : TimeUnit} {f : Field} {values : List Nat}
    (h : fieldValues? u f = some values) {e : Element} (he : e ∈ f) :
    ∃ part, e.values? u = some part := by
  obtain ⟨parts, hparts, rfl⟩ := Option.map_eq_some_iff.1 h
  clear h
  induction f generalizing parts with
  | nil => cases he
  | cons first f ih =>
    rw [List.mapM_cons] at hparts
    obtain ⟨part, hfirst, hparts⟩ := Option.bind_eq_some_iff.1 hparts
    obtain ⟨others, hothers, -⟩ := Option.bind_eq_some_iff.1 hparts
    rcases List.mem_cons.1 he with rfl | he
    · exact ⟨part, hfirst⟩
    · exact ih he others hothers

/-! ## 3. One field, two units -/

/-- Two units such that a field with the value `x'` in the one has the value `x` in the other,
    if it can be read as both: what counts through them in steps and comes to `x'` comes to `x`,
    only one value can be named in both, and no name belongs to both. -/
structure Carries (u u' : TimeUnit) (x x' : Nat) : Prop where
  mem : x ∈ u.all
  steps : ∀ step, (x' - u'.low) % step = 0 → (x - u.low) % step = 0
  common : ∀ n ∈ u.all, n ∈ u'.all → x = x' ∧ x ≤ u.high
  names : ∀ entry ∈ u.names, ∀ entry' ∈ u'.names, entry.1.toList ≠ entry'.1.toList

namespace Carries

variable {u u' : TimeUnit} {x x' : Nat}

theorem not_named (h : Carries u u' x x') {name : List Char} {n n' : Nat}
    (hn : u.named? name = some n) : u'.named? name ≠ some n' := by
  intro hn'
  obtain ⟨entry, hfound, -⟩ := Option.map_eq_some_iff.1 hn
  obtain ⟨entry', hfound', -⟩ := Option.map_eq_some_iff.1 hn'
  have heq : entry.1.toList = name.map Char.toLower := by simpa using List.find?_some hfound
  have heq' : entry'.1.toList = name.map Char.toLower := by simpa using List.find?_some hfound'
  exact h.names entry (List.mem_of_find?_eq_some hfound) entry'
    (List.mem_of_find?_eq_some hfound') (heq.trans heq'.symm)

/-- A range that both units have is the same in both. -/
theorem range (h : Carries u u' x x') {a b : Nat} {part part' : List Nat}
    (hpart : (Span.range a b).values? u = some part)
    (hpart' : (Span.range a b).values? u' = some part') : x = x' ∧ part = part' := by
  obtain ⟨first, ha, hpart⟩ := Option.bind_eq_some_iff.1 hpart
  obtain ⟨last, hb, hpart⟩ := Option.bind_eq_some_iff.1 hpart
  obtain ⟨first', ha', hpart'⟩ := Option.bind_eq_some_iff.1 hpart'
  obtain ⟨last', hb', hpart'⟩ := Option.bind_eq_some_iff.1 hpart'
  obtain ⟨rfl, ha⟩ := TimeUnit.value?_eq_some.1 ha
  obtain ⟨rfl, -⟩ := TimeUnit.value?_eq_some.1 hb
  obtain ⟨rfl, ha'⟩ := TimeUnit.value?_eq_some.1 ha'
  obtain ⟨rfl, -⟩ := TimeUnit.value?_eq_some.1 hb'
  exact ⟨(h.common a ha ha').1, Option.some.inj (hpart.symm.trans hpart')⟩

theorem not_namedRange (h : Carries u u' x x') {a b : List Char} {part part' : List Nat}
    (hpart : (Span.namedRange a b).values? u = some part) :
    (Span.namedRange a b).values? u' ≠ some part' := by
  intro hpart'
  obtain ⟨n, ha, -⟩ := Option.bind_eq_some_iff.1 hpart
  obtain ⟨n', ha', -⟩ := Option.bind_eq_some_iff.1 hpart'
  exact h.not_named ha ha'

theorem span (h : Carries u u' x x') {s : Span} {part part' : List Nat}
    (hpart : s.values? u = some part) (hpart' : s.values? u' = some part') (hx : x' ∈ part') :
    x ∈ part := by
  cases s with
  | all =>
    cases hpart
    exact h.mem
  | range a b =>
    obtain ⟨rfl, rfl⟩ := h.range hpart hpart'
    exact hx
  | point n =>
    obtain ⟨m, hm, rfl⟩ := Option.map_eq_some_iff.1 hpart
    obtain ⟨m', hm', rfl⟩ := Option.map_eq_some_iff.1 hpart'
    obtain ⟨rfl, hm⟩ := TimeUnit.value?_eq_some.1 hm
    obtain ⟨rfl, hm'⟩ := TimeUnit.value?_eq_some.1 hm'
    rw [(h.common n hm hm').1]
    exact hx
  | namedRange a b => exact absurd hpart' (h.not_namedRange hpart)

/-- Counting in steps keeps the value. -/
theorem counted (h : Carries u u' x x') {s : Span} {step : Nat} {part part' : List Nat}
    (hpart : s.run? u = some part) (hpart' : s.run? u' = some part')
    (hx : x' ∈ everyNth step part') : x ∈ everyNth step part := by
  cases s with
  | all =>
    cases hpart
    cases hpart'
    obtain ⟨-, -, hstep⟩ := mem_everyNth_range'.1 hx
    obtain ⟨hlow, hhigh⟩ := List.mem_range'_1.1 h.mem
    exact mem_everyNth_range'.2 ⟨hlow, hhigh, h.steps step hstep⟩
  | point n =>
    obtain ⟨m, hm, hpart⟩ := Option.bind_eq_some_iff.1 hpart
    obtain ⟨m', hm', hpart'⟩ := Option.bind_eq_some_iff.1 hpart'
    obtain ⟨rfl, hm⟩ := TimeUnit.value?_eq_some.1 hm
    obtain ⟨rfl, hm'⟩ := TimeUnit.value?_eq_some.1 hm'
    obtain ⟨-, rfl⟩ := between?_eq_some.1 hpart
    obtain ⟨-, rfl⟩ := between?_eq_some.1 hpart'
    obtain ⟨hfirst, -, hstep⟩ := mem_everyNth_range'.1 hx
    obtain ⟨rfl, hhigh⟩ := h.common n hm hm'
    exact mem_everyNth_range'.2 ⟨hfirst, by omega, hstep⟩
  | range a b =>
    obtain ⟨rfl, rfl⟩ := h.range hpart hpart'
    exact hx
  | namedRange a b => exact absurd hpart' (h.not_namedRange hpart)

theorem element (h : Carries u u' x x') {e : Element} {part part' : List Nat}
    (hpart : e.values? u = some part) (hpart' : e.values? u' = some part') (hx : x' ∈ part') :
    x ∈ part := by
  cases e with
  | every s step =>
    simp only [Element.values?] at hpart hpart'
    split at hpart
    · cases hpart
    · rw [if_neg ‹_›] at hpart'
      obtain ⟨run, hrun, rfl⟩ := Option.map_eq_some_iff.1 hpart
      obtain ⟨run', hrun', rfl⟩ := Option.map_eq_some_iff.1 hpart'
      exact h.counted hrun hrun' hx
  | plain s => exact h.span hpart hpart' hx
  | named name =>
    obtain ⟨n, hn, -⟩ := Option.map_eq_some_iff.1 hpart
    obtain ⟨n', hn', -⟩ := Option.map_eq_some_iff.1 hpart'
    exact absurd hn' (h.not_named hn)

theorem field (h : Carries u u' x x') {f : Field} {values values' : List Nat}
    (hvalues : fieldValues? u f = some values) (hvalues' : fieldValues? u' f = some values')
    (hx : x' ∈ values') : x ∈ values := by
  obtain ⟨-, e, he, part', hpart', hx⟩ := (mem_fieldValues hvalues').1 hx
  obtain ⟨part, hpart⟩ := values_of_fieldValues hvalues he
  exact (mem_fieldValues hvalues).2 ⟨h.mem, e, he, part, hpart, h.element hpart hpart' hx⟩

theorem of_low {u u' : TimeUnit} (hmem : 2 ∈ u.all)
    (hlow : u'.low = u.low ∨ u'.low = 1)
    (hnames : ∀ entry ∈ u.names, ∀ entry' ∈ u'.names, entry.1.toList ≠ entry'.1.toList) :
    Carries u u' 2 2 where
  mem := hmem
  steps step hstep := by
    rcases hlow with heq | heq
    · rwa [heq] at hstep
    · rw [heq] at hstep
      have hone : step = 1 := Nat.dvd_one.1 (Nat.dvd_of_mod_eq_zero hstep)
      rw [hone, Nat.mod_one]
  common n _ _ := ⟨rfl, (TimeUnit.mem_all.1 hmem).2⟩
  names := hnames

theorem seconds_minutes : Carries seconds minutes 2 2 :=
  of_low (by decide) (.inl rfl) (by decide)

theorem minutes_hours : Carries minutes hours 2 2 :=
  of_low (by decide) (.inl rfl) (by decide)

theorem hours_days : Carries hours daysOfMonth 2 2 :=
  of_low (by decide) (.inr rfl) (by decide)

theorem days_months : Carries daysOfMonth months 2 2 :=
  of_low (by decide) (.inr rfl) (by decide)

theorem months_weekdays : Carries months daysOfWeek 2 2 :=
  of_low (by decide) (.inr rfl) (by decide +kernel)

/-- A field of years that has the second year counts through all of them, and so does it through
    the days of the week. -/
theorem weekdays_years : Carries daysOfWeek years 2 1971 where
  mem := by decide
  steps step hstep := hstep
  common n hn hn' := by
    have := TimeUnit.mem_all.1 hn
    have := TimeUnit.mem_all.1 hn'
    simp only [daysOfWeek, years] at *
    omega
  names := by decide

end Carries

end SignedRecords.Cron
