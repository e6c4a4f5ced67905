import Lockstep.Proofs.Manifest.Tally

/-!
# What a report says

The counts and the first mismatch of a report, in terms of the expected entries and of the
buffers after the launch; and what it means for a run to pass. A list longer than its buffer
fails the run. A shorter one is compared with as many elements as it has entries, and those
after them may be anything.
-/

namespace Lockstep

/-! ## Texts of values -/

theorem Decimal.not_mem_digitText (n : Nat) : 'h' ∉ digitText n := by
  intro h
  have hdigit := Nat.isDigit_of_mem_toDigits (by decide) (by decide) h
  exact absurd hdigit (by decide)

theorem not_mem_toString (i : Int) : 'h' ∉ (toString i).toList := by
  have hdigits (n : Nat) : 'h' ∉ n.repr.toList := by
    rw [Nat.toList_repr]
    exact Decimal.not_mem_digitText n
  rw [Int.toString_eq_repr, Int.repr_eq_if]
  split
  · exact hdigits _
  · simp only [String.toList_append, List.mem_append, not_or]
    exact ⟨by decide, hdigits _⟩

theorem Layout.not_mem_plain (d : Decimal) : 'h' ∉ plain.unsigned d := by
  have hdigits := Decimal.not_mem_digitText d.digits
  have hunsigned : plain.unsigned d = plain.positionalText d := if_pos (.inr rfl)
  have hpoint : plain.keepsPoint = false := rfl
  rw [hunsigned]
  unfold positionalText
  dsimp only
  rw [hpoint]
  split
  · simp [hdigits]
  · split
    · simp [mt List.mem_of_mem_take hdigits, mt List.mem_of_mem_drop hdigits]
    · simp [hdigits]

/-- No value reads as the word for none. -/
theorem Value.text_ne_nothing (v : Value) : v.text ≠ "nothing" := by
  have hletter : 'h' ∈ "nothing".toList := by decide
  intro heq
  rw [← heq] at hletter
  cases v with
  | bool b => cases b <;> exact absurd hletter (by decide)
  | int t i => exact not_mem_toString i hletter
  | float t x =>
    change 'h' ∈ (Layout.plain.text x).toList at hletter
    rw [Layout.text, String.toList_ofList] at hletter
    cases hx : x.datum with
    | finite s m e =>
      simp only [hx, List.mem_append] at hletter
      rcases hletter with hsign | hnumber
      · cases s <;> simp at hsign
      · exact Layout.not_mem_plain _ hnumber
    | infinite s =>
      rw [hx] at hletter
      cases s <;> simp at hletter
    | nan s p =>
      rw [hx] at hletter
      simp at hletter

theorem Mismatch.actualText_eq_nothing_iff {x : Mismatch} :
    x.actualText = "nothing" ↔ x.actual = none := by
  unfold actualText
  cases x.actual with
  | none => exact iff_of_true rfl rfl
  | some v => exact iff_of_false v.text_ne_nothing (Option.some_ne_none v)

theorem Buffer.read?_eq_none_iff {b : Buffer} {i : Nat} : b.read? i = none ↔ b.length ≤ i := by
  rw [← b.getElem?_toValues, List.getElem?_eq_none_iff, b.length_toValues]

namespace Manifest

variable {m : Manifest} {limit : Nat} {wait : Bool} {r : Report} {bs : List Buffer} {k i : Nat}
  {q : Comparison} {l : Literal}

/-! ## Entries and elements -/

/-- Entry `i` that is expected of the buffer at position `k`. -/
def expected? (m : Manifest) (k i : Nat) : Option Literal :=
  m.buffers[k]?.bind fun x => x.expected[i]?

/-- Element `i` of the buffer at position `k`. -/
def element? (bs : List Buffer) (k i : Nat) : Option Value :=
  bs[k]?.bind (·.read? i)

/-- An entry is expected there, and the buffer has an element that meets it. -/
def Meets (m : Manifest) (bs : List Buffer) (k i : Nat) : Prop :=
  ∃ l v, m.expected? k i = some l ∧ element? bs k i = some v ∧ l.isMetBy v = true

/-- An entry is expected there, and the buffer has no element that meets it. -/
def Misses (m : Manifest) (bs : List Buffer) (k i : Nat) : Prop :=
  ∃ l, m.expected? k i = some l ∧ ∀ v, element? bs k i = some v → l.isMetBy v = false

/-- All that is compared when the buffers are these after the launch. -/
def comparisons (m : Manifest) (bs : List Buffer) : List Comparison :=
  comparisonsFrom 0 m.buffers bs

theorem mem_comparisons : q ∈ m.comparisons bs ↔ ∃ x b, m.buffers[q.position]? = some x ∧
    bs[q.position]? = some b ∧ q ∈ comparisonsOf q.position x b := by
  unfold comparisons
  rw [mem_comparisonsFrom]
  simp only [Nat.zero_add]
  constructor
  · rintro ⟨n, x, b, hx, hb, hq⟩
    obtain rfl := (mem_comparisonsOf.mp hq).1
    exact ⟨x, b, hx, hb, hq⟩
  · rintro ⟨x, b, hx, hb, hq⟩
    exact ⟨q.position, x, b, hx, hb, hq⟩

theorem of_mem_comparisons (h : q ∈ m.comparisons bs) :
    m.expected? q.position q.index = some q.expected ∧
      q.actual = element? bs q.position q.index := by
  obtain ⟨x, b, hx, hb, hq⟩ := mem_comparisons.mp h
  obtain ⟨-, -, hexpected, hactual⟩ := mem_comparisonsOf.mp hq
  rw [expected?, element?, hx, hb]
  exact ⟨hexpected, hactual⟩

theorem exists_comparison (hlen : bs.length = m.buffers.length) (h : m.expected? k i = some l) :
    ∃ q ∈ m.comparisons bs, q.position = k ∧ q.index = i := by
  obtain ⟨x, hx, hl⟩ := Option.bind_eq_some_iff.mp h
  have hk : k < bs.length := by
    rw [hlen]
    exact (List.getElem?_eq_some_iff.mp hx).1
  refine ⟨⟨k, i, x.name, l, bs[k].read? i⟩, ?_, rfl, rfl⟩
  rw [mem_comparisons]
  exact ⟨x, bs[k], hx, List.getElem?_eq_getElem hk, mem_comparisonsOf.mpr ⟨rfl, rfl, hl, rfl⟩⟩

theorem meets_iff (hlen : bs.length = m.buffers.length) : m.Meets bs k i ↔
    ∃ q ∈ m.comparisons bs, q.holds = true ∧ (q.position, q.index) = (k, i) := by
  constructor
  · rintro ⟨l, v, hl, hv, hmet⟩
    obtain ⟨q, hq, rfl, rfl⟩ := exists_comparison hlen hl
    obtain ⟨hexpected, hactual⟩ := of_mem_comparisons hq
    cases hl.symm.trans hexpected
    exact ⟨q, hq, Comparison.holds_iff.mpr ⟨v, hactual.trans hv, hmet⟩, rfl⟩
  · rintro ⟨q, hq, hholds, hplace⟩
    cases hplace
    obtain ⟨hexpected, hactual⟩ := of_mem_comparisons hq
    obtain ⟨v, hv, hmet⟩ := Comparison.holds_iff.mp hholds
    exact ⟨q.expected, v, hexpected, hactual ▸ hv, hmet⟩

theorem misses_iff (hlen : bs.length = m.buffers.length) : m.Misses bs k i ↔
    ∃ q ∈ m.comparisons bs, q.holds = false ∧ (q.position, q.index) = (k, i) := by
  constructor
  · rintro ⟨l, hl, hmiss⟩
    obtain ⟨q, hq, rfl, rfl⟩ := exists_comparison hlen hl
    obtain ⟨hexpected, hactual⟩ := of_mem_comparisons hq
    cases hl.symm.trans hexpected
    refine ⟨q, hq, Bool.eq_false_iff.mpr fun hholds => ?_, rfl⟩
    obtain ⟨v, hv, hmet⟩ := Comparison.holds_iff.mp hholds
    rw [hmiss v (hactual ▸ hv)] at hmet
    cases hmet
  · rintro ⟨q, hq, hfails, hplace⟩
    cases hplace
    obtain ⟨hexpected, hactual⟩ := of_mem_comparisons hq
    refine ⟨q.expected, hexpected, fun v hv => Bool.eq_false_iff.mpr fun hmet => ?_⟩
    rw [Comparison.holds_iff.mpr ⟨v, hactual.trans hv, hmet⟩] at hfails
    cases hfails

theorem tally_of_run {e : Engine} (h : m.run limit wait = .ok r)
    (hexecute : m.execute limit wait = .ok (e, bs)) :
    r.tally = .ofComparisons (m.comparisons bs) := by
  obtain ⟨e', bs', hexecute', rfl⟩ := run_eq_ok.mp h
  cases hexecute.symm.trans hexecute'
  exact Tally.ofBuffers_eq 0 m.buffers bs

theorem passed_iff (h : r.tally = .ofComparisons (m.comparisons bs)) :
    r.passed = true ↔ ∀ q ∈ m.comparisons bs, q.holds = true := by
  rw [Report.passed, beq_iff_eq, h]
  exact Tally.correct_eq_total_iff

/-! ## Counts and the first mismatch -/

/-- The mismatch is of entry `x.index` of the buffer at position `k`, and it is the first. -/
structure IsFirst (m : Manifest) (bs : List Buffer) (x : Mismatch) (k : Nat) : Prop where
  least : IsLeast {p : ℕ ×ₗ ℕ | m.Misses bs (ofLex p).1 (ofLex p).2} (toLex (k, x.index))
  buffer : ∃ entry, m.buffers[k]? = some entry ∧ x.buffer = entry.name
  expected : m.expected? k x.index = some x.expected
  actual : x.actual = element? bs k x.index
  nothing : ∃ b, bs[k]? = some b ∧ (x.actualText = "nothing" ↔ b.length ≤ x.index)

/-- The report counts the entries and those that are met, passes when there is no other, and
names the first other one. -/
structure Accounts (m : Manifest) (bs : List Buffer) (r : Report) : Prop where
  buffers : bs.length = m.buffers.length
  total : r.tally.total = (m.buffers.map fun x => x.expected.length).sum
  correct : (r.tally.correct : ℕ∞) = {p : ℕ × ℕ | m.Meets bs p.1 p.2}.encard
  passed_iff_none : r.passed = true ↔ r.tally.mismatch = none
  passed_iff_equal : r.passed = true ↔ r.tally.correct = r.tally.total
  passed_iff_met : r.passed = true ↔ ∀ k i, ¬ m.Misses bs k i
  first : ∀ x, r.tally.mismatch = some x → ∃ k, m.IsFirst bs x k

theorem isFirst_of_mismatch (hlen : bs.length = m.buffers.length) {x : Mismatch}
    (h : (Tally.ofComparisons (m.comparisons bs)).mismatch = some x) :
    ∃ k, m.IsFirst bs x k := by
  obtain ⟨q, hq, rfl, hfails, hleast⟩ :=
    Tally.least_of_mismatch (pairwise_comparisonsFrom 0 m.buffers bs) h
  obtain ⟨hexpected, hactual⟩ := of_mem_comparisons hq
  obtain ⟨x, b, hx, hb, hof⟩ := mem_comparisons.mp hq
  refine ⟨q.position, ⟨?_, ?_⟩, ?_, hexpected, hactual, b, hb, ?_⟩
  · exact (misses_iff hlen).mpr ⟨q, hq, hfails, rfl⟩
  · intro p hp
    obtain ⟨q', hq', hfails', hplace⟩ := (misses_iff hlen).mp hp
    have hp : q'.place = p := congrArg toLex hplace
    rw [← hp]
    exact hleast q' hq' hfails'
  · exact ⟨x, hx, (mem_comparisonsOf.mp hof).2.1⟩
  · have hread : q.mismatch.actual = b.read? q.index := (mem_comparisonsOf.mp hof).2.2.2
    rw [Mismatch.actualText_eq_nothing_iff, hread]
    exact Buffer.read?_eq_none_iff

/-- A run that ends accounts for all entries that are expected of its buffers. -/
theorem run_accounts (h : m.run limit wait = .ok r) :
    ∃ e bs, m.execute limit wait = .ok (e, bs) ∧ m.Accounts bs r := by
  obtain ⟨e, bs, hexecute, -⟩ := run_eq_ok.mp h
  have hlen := length_execute hexecute
  have htally := tally_of_run h hexecute
  refine ⟨e, bs, hexecute, hlen, ?_, ?_, ?_, ?_, ?_, ?_⟩
  · rw [htally]
    exact length_comparisonsFrom 0 hlen
  · have hset : {p : ℕ × ℕ | m.Meets bs p.1 p.2} =
        {p | ∃ q ∈ m.comparisons bs, q.holds = true ∧ (q.position, q.index) = p} :=
      Set.ext fun p => meets_iff hlen
    rw [htally, hset]
    exact Tally.correct_eq_encard (pairwise_comparisonsFrom 0 m.buffers bs)
  · rw [passed_iff htally, htally]
    exact Tally.mismatch_eq_none_iff.symm
  · exact beq_iff_eq
  · rw [passed_iff htally]
    constructor
    · intro hall k i hmiss
      obtain ⟨q, hq, hfails, -⟩ := (misses_iff hlen).mp hmiss
      rw [hall q hq] at hfails
      cases hfails
    · intro hall q hq
      by_contra hfails
      exact hall q.position q.index
        ((misses_iff hlen).mpr ⟨q, hq, Bool.eq_false_iff.mpr hfails, rfl⟩)
  · intro x hx
    rw [htally] at hx
    exact isFirst_of_mismatch hlen hx

/-- Three buffers that no instruction changes, one of which is not compared. -/
def untouched : Manifest where
  name := "untouched"
  description := ""
  global := unitPoint
  warp := unitPoint
  launchValues := []
  buffers := [
    ⟨"flags", "bool", 2, .zeros, some [.bool false]⟩,
    ⟨"rest", "float32", 1, .zeros, none⟩,
    ⟨"counts", "int32", 2, .values [.int 7, .int 8], some [.int 7, .int 9, .int 0]⟩]
  uops := []

theorem run_accounts_untouched :
    let r : Report := ⟨"untouched", ⟨2, 4, some ⟨"counts", 1, .int 9, some (.int .int32 8)⟩⟩, 0, false⟩
    untouched.run 1 false = .ok r ∧
      ∃ e bs, untouched.execute 1 false = .ok (e, bs) ∧ untouched.Accounts bs r := by
  intro r
  have hrun : untouched.run 1 false = .ok r := by decide +kernel
  exact ⟨hrun, run_accounts hrun⟩

/-! ## Passing -/

/-- As many literals as values, and each is met by the value at its place. -/
def AreMetBy (es : List Literal) (vs : List Value) : Prop :=
  List.Forall₂ (fun l v => l.isMetBy v = true) es vs

/-- The list `es` is expected of the buffer of entry `x`, which holds `b` after the launch. -/
def Compares (m : Manifest) (bs : List Buffer) (x : BufferEntry) (b : Buffer)
    (es : List Literal) : Prop :=
  ∃ k : Nat, m.buffers[k]? = some x ∧ bs[k]? = some b ∧ x.expect = some es

/-- A run passes when every list that is expected is met by as many elements from the start
of its buffer. -/
structure PassesOnPrefixes (m : Manifest) (bs : List Buffer) (r : Report) : Prop where
  buffers : bs.length = m.buffers.length
  /-- after the launch the buffers have the sizes that they are listed with -/
  sizes : ∀ x b es, m.Compares bs x b es → b.toValues.length = x.size
  passed_iff : r.passed = true ↔
    ∀ x b es, m.Compares bs x b es → AreMetBy es (b.toValues.take es.length)
  /-- in a run that passes no list is longer than its buffer, and those of the same length are
  met by all of it -/
  whole : r.passed = true → ∀ x b es, m.Compares bs x b es →
    es.length ≤ x.size ∧ (es.length = x.size ↔ AreMetBy es b.toValues)

theorem forall_holds_iff {x : BufferEntry} {b : Buffer} :
    (∀ q ∈ comparisonsOf k x b, q.holds = true) ↔
      AreMetBy x.expected (b.toValues.take x.expected.length) := by
  rw [AreMetBy, List.forall₂_iff_get]
  constructor
  · intro hall
    have helement (i : Nat) (hi : i < x.expected.length) :
        ∃ v, b.toValues[i]? = some v ∧ x.expected[i].isMetBy v = true := by
      have hholds := hall ⟨k, i, x.name, x.expected[i], b.read? i⟩
        (mem_comparisonsOf.mpr ⟨rfl, rfl, List.getElem?_eq_getElem hi, rfl⟩)
      rw [b.getElem?_toValues]
      exact Comparison.holds_iff.mp hholds
    refine ⟨?_, fun i hi hi' => ?_⟩
    · have hle : x.expected.length ≤ b.toValues.length := by
        by_contra hlt
        obtain ⟨v, hv, -⟩ := helement b.toValues.length (Nat.lt_of_not_le hlt)
        rw [List.getElem?_eq_none (Nat.le_refl _)] at hv
        cases hv
      rw [List.length_take, Nat.min_eq_left hle]
    · obtain ⟨v, hv, hmet⟩ := helement i hi
      obtain ⟨_, rfl⟩ := List.getElem?_eq_some_iff.mp hv
      simpa using hmet
  · rintro ⟨hlength, hall⟩ q hq
    obtain ⟨-, -, hexpected, hactual⟩ := mem_comparisonsOf.mp hq
    obtain ⟨hi, hl⟩ := List.getElem?_eq_some_iff.mp hexpected
    have hi' : q.index < (b.toValues.take x.expected.length).length := hlength ▸ hi
    have hmet := hall q.index hi hi'
    rw [List.get_eq_getElem, List.get_eq_getElem, hl, List.getElem_take] at hmet
    refine Comparison.holds_iff.mpr ⟨_, ?_, hmet⟩
    rw [hactual, ← b.getElem?_toValues, List.getElem?_eq_getElem]

theorem passed_iff_areMetBy (h : r.tally = .ofComparisons (m.comparisons bs)) :
    r.passed = true ↔
      ∀ x b es, m.Compares bs x b es → AreMetBy es (b.toValues.take es.length) := by
  rw [passed_iff h]
  constructor
  · rintro hall x b es ⟨k, hx, hb, hes⟩
    have hprefix : ∀ q ∈ comparisonsOf k x b, q.holds = true := by
      intro q hq
      obtain rfl := (mem_comparisonsOf.mp hq).1
      exact hall q (mem_comparisons.mpr ⟨x, b, hx, hb, hq⟩)
    rw [forall_holds_iff, BufferEntry.expected, hes] at hprefix
    exact hprefix
  · intro hall q hq
    obtain ⟨x, b, hx, hb, hof⟩ := mem_comparisons.mp hq
    refine forall_holds_iff.mpr ?_ q hof
    cases hes : x.expect with
    | none =>
      rw [BufferEntry.expected, hes]
      exact .nil
    | some es =>
      rw [BufferEntry.expected, hes]
      exact hall x b es ⟨q.position, hx, hb, hes⟩

/-- What is met by as many values of a longer list leaves the others out. -/
theorem AreMetBy.length_le_and_iff {es : List Literal} {vs : List Value}
    (h : AreMetBy es (vs.take es.length)) :
    es.length ≤ vs.length ∧ (es.length = vs.length ↔ AreMetBy es vs) := by
  have hlength := h.length_eq
  rw [List.length_take] at hlength
  refine ⟨by omega, ?_, fun hall => hall.length_eq⟩
  intro heq
  rwa [List.take_of_length_le (Nat.le_of_eq heq.symm)] at h

/-- A run that ends passes when the entries it lists are met; those elements that come after
the end of a list are not looked at. -/
theorem passed_iff_prefixes (h : m.run limit wait = .ok r) :
    ∃ e bs, m.execute limit wait = .ok (e, bs) ∧ m.PassesOnPrefixes bs r := by
  obtain ⟨e, bs, hexecute, -⟩ := run_eq_ok.mp h
  have hpassed := passed_iff_areMetBy (tally_of_run h hexecute)
  have hsizes : ∀ x b es, m.Compares bs x b es → b.toValues.length = x.size := by
    rintro x b es ⟨k, hx, hb, -⟩
    rw [b.length_toValues, size_execute hexecute hx hb]
  refine ⟨e, bs, hexecute, length_execute hexecute, hsizes, hpassed, ?_⟩
  intro hpass x b es hcompares
  have hprefix := hpassed.mp hpass x b es hcompares
  rw [← hsizes x b es hcompares]
  exact hprefix.length_le_and_iff

/-- Two numbers, the first of which is expected. -/
def firstOfTwo : Manifest where
  name := "prefix"
  description := ""
  global := unitPoint
  warp := unitPoint
  launchValues := []
  buffers := [⟨"out", "int32", 2, .values [.int 1, .int 2], some [.int 1]⟩]
  uops := []

theorem passed_iff_prefixes_firstOfTwo :
    let r : Report := ⟨"prefix", ⟨1, 1, none⟩, 0, false⟩
    firstOfTwo.run 1 false = .ok r ∧
      ∃ e bs, firstOfTwo.execute 1 false = .ok (e, bs) ∧ firstOfTwo.PassesOnPrefixes bs r := by
  intro r
  have hrun : firstOfTwo.run 1 false = .ok r := by decide +kernel
  exact ⟨hrun, passed_iff_prefixes hrun⟩

/-- The run passes on a list of one entry, though the buffer ends with two elements. -/
theorem passed_on_shorter_list :
    ∃ r e b x, firstOfTwo.run 1 false = .ok r ∧ r.passed = true ∧
      firstOfTwo.execute 1 false = .ok (e, [b]) ∧
      b.toValues = [.int .int32 1, .int .int32 2] ∧
      firstOfTwo.buffers = [x] ∧ x.expect = some [.int 1] := by
  refine ⟨⟨"prefix", ⟨1, 1, none⟩, 0, false⟩, ⟨⟨[]⟩, .completed, 1, 0⟩,
    ⟨.int .int32, #[1, 0, 0, 0, 2, 0, 0, 0]⟩, _, ?_, rfl, ?_, ?_, rfl, rfl⟩
  · decide +kernel
  · rfl
  · decide +kernel

end Manifest

end Lockstep
