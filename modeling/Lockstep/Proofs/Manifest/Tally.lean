import Lockstep.Proofs.Manifest.Execution
import Mathlib.Data.Prod.Lex
import Mathlib.Data.Set.Card

/-!
# Tallies

The tally of a run goes over the expected entries buffer by buffer and holds each against the
element at its place. It counts those that are met, and its mismatch is the first in the order
of positions and indices that is not. The entries alone say what is compared, so a list that
ends before its buffer does leaves the rest of the buffer unread.
-/

namespace Lockstep

/-- An expected entry with the element at its place after the launch. -/
structure Comparison where
  /-- position of the buffer among those of the launch -/
  position : Nat
  index : Nat
  buffer : String
  expected : Literal
  actual : Option Value

namespace Comparison

def place (q : Comparison) : ℕ ×ₗ ℕ := toLex (q.position, q.index)

/-- There is an element, and it is what is expected. -/
def holds (q : Comparison) : Bool := q.actual.any q.expected.isMetBy

def mismatch (q : Comparison) : Mismatch := ⟨q.buffer, q.index, q.expected, q.actual⟩

theorem holds_iff {q : Comparison} :
    q.holds = true ↔ ∃ v, q.actual = some v ∧ q.expected.isMetBy v = true :=
  Option.any_eq_true _ _

end Comparison

/-- The expected entries of a buffer, none if it is not compared. -/
def BufferEntry.expected (x : BufferEntry) : List Literal := x.expect.getD []

/-- The comparisons of the buffer at position `k`. -/
def comparisonsOf (k : Nat) (x : BufferEntry) (b : Buffer) : List Comparison :=
  x.expected.zipIdx.map fun p => ⟨k, p.2, x.name, p.1, b.read? p.2⟩

/-- The comparisons of the buffers from position `k` on. -/
def comparisonsFrom (k : Nat) : List BufferEntry → List Buffer → List Comparison
  | x :: xs, b :: bs => comparisonsOf k x b ++ comparisonsFrom (k + 1) xs bs
  | _, _ => []

/-! ## Tallies of comparisons -/

namespace Tally

def ofComparisons (cs : List Comparison) : Tally :=
  ⟨cs.countP (·.holds), cs.length, (cs.find? fun q => !q.holds).map (·.mismatch)⟩

theorem ofComparisons_append (cs ds : List Comparison) :
    ofComparisons (cs ++ ds) = (ofComparisons cs).append (ofComparisons ds) := by
  simp [ofComparisons, append, Option.map_or]

theorem ofEntry_eq (q : Comparison) :
    ofEntry q.buffer q.index q.expected q.actual = ofComparisons [q] := by
  by_cases h : q.holds = true
  · have hany : q.actual.any q.expected.isMetBy = true := h
    simp [ofEntry, ofComparisons, hany, h]
  · have hany : ¬ q.actual.any q.expected.isMetBy = true := h
    simp [ofEntry, ofComparisons, hany, h, Comparison.mismatch]

theorem ofEntries_eq (k : Nat) (name : String) (vs : List Value) (start : Nat)
    (es : List Literal) : ofEntries name vs start es =
      ofComparisons ((es.zipIdx start).map fun p => ⟨k, p.2, name, p.1, vs[p.2]?⟩) := by
  induction es generalizing start with
  | nil => rfl
  | cons e es ih =>
    rw [ofEntries, ih, List.zipIdx_cons, List.map_cons, ← List.singleton_append,
      ofComparisons_append, ← ofEntry_eq]

theorem ofBuffer_eq (k : Nat) (x : BufferEntry) (b : Buffer) :
    ofBuffer x b = ofComparisons (comparisonsOf k x b) := by
  have hentries : ofBuffer x b = ofEntries x.name b.toValues 0 x.expected := by
    unfold ofBuffer BufferEntry.expected
    cases x.expect <;> rfl
  rw [hentries, ofEntries_eq k]
  simp only [Buffer.getElem?_toValues]
  rfl

theorem ofBuffers_eq (k : Nat) (xs : List BufferEntry) (bs : List Buffer) :
    ofBuffers xs bs = ofComparisons (comparisonsFrom k xs bs) := by
  induction xs generalizing k bs with
  | nil => rfl
  | cons x xs ih =>
    cases bs with
    | nil => rfl
    | cons b bs =>
      rw [ofBuffers, comparisonsFrom, ofComparisons_append, ofBuffer_eq k, ih (k + 1)]

variable {cs : List Comparison}

theorem correct_eq_total_iff :
    (ofComparisons cs).correct = (ofComparisons cs).total ↔ ∀ q ∈ cs, q.holds = true :=
  List.countP_eq_length

theorem mismatch_eq_none_iff :
    (ofComparisons cs).mismatch = none ↔ ∀ q ∈ cs, q.holds = true := by
  simp [ofComparisons]

/-- In ascending order, the first comparison that fails is the least one. -/
theorem least_of_mismatch (hsorted : cs.Pairwise (·.place < ·.place)) {x : Mismatch}
    (h : (ofComparisons cs).mismatch = some x) : ∃ q ∈ cs, q.mismatch = x ∧ q.holds = false ∧
      ∀ q' ∈ cs, q'.holds = false → q.place ≤ q'.place := by
  obtain ⟨q, hfind, hx⟩ := Option.map_eq_some_iff.mp h
  obtain ⟨hfails, before, after, rfl, hbefore⟩ := List.find?_eq_some_iff_append.mp hfind
  refine ⟨q, by simp, hx, by simpa using hfails, ?_⟩
  intro q' hq' hfails'
  rcases List.mem_append.mp hq' with hin | hin
  · have hholds := hbefore q' hin
    simp [hfails'] at hholds
  · rcases List.mem_cons.mp hin with rfl | hin
    · exact le_refl _
    · have hrest := (List.pairwise_append.mp hsorted).2.1
      exact le_of_lt ((List.pairwise_cons.mp hrest).1 q' hin)

/-- In ascending order, no two comparisons are counted for one place. -/
theorem correct_eq_encard (hsorted : cs.Pairwise (·.place < ·.place)) :
    ((ofComparisons cs).correct : ℕ∞) =
      {p : ℕ × ℕ | ∃ q ∈ cs, q.holds = true ∧ (q.position, q.index) = p}.encard := by
  have hnodup : ((cs.filter (·.holds)).map fun q => (q.position, q.index)).Nodup := by
    rw [List.Nodup, List.pairwise_map]
    refine (hsorted.filter _).imp ?_
    intro q q' hlt heq
    exact absurd (congrArg toLex heq) (ne_of_lt hlt)
  have hset : {p : ℕ × ℕ | ∃ q ∈ cs, q.holds = true ∧ (q.position, q.index) = p} =
      ((cs.filter (·.holds)).map fun q => (q.position, q.index)).toFinset := by
    ext p
    simp [and_assoc]
  rw [hset, Set.encard_coe_eq_coe_finsetCard, List.toFinset_card_of_nodup hnodup,
    List.length_map, ← List.countP_eq_length_filter]
  rfl

end Tally

/-! ## The comparisons of a run -/

section

variable {q : Comparison} {k n : Nat} {x : BufferEntry} {b : Buffer} {xs : List BufferEntry}
  {bs : List Buffer}

theorem mem_comparisonsOf : q ∈ comparisonsOf k x b ↔ q.position = k ∧ q.buffer = x.name ∧
    x.expected[q.index]? = some q.expected ∧ q.actual = b.read? q.index := by
  rw [comparisonsOf, List.mem_map]
  constructor
  · rintro ⟨⟨e, i⟩, hmem, rfl⟩
    exact ⟨rfl, rfl, List.mk_mem_zipIdx_iff_getElem?.mp hmem, rfl⟩
  · obtain ⟨position, index, buffer, expected, actual⟩ := q
    dsimp only
    rintro ⟨rfl, rfl, hexpected, rfl⟩
    exact ⟨(expected, index), List.mk_mem_zipIdx_iff_getElem?.mpr hexpected, rfl⟩

theorem mem_comparisonsFrom : q ∈ comparisonsFrom k xs bs ↔
    ∃ n x b, xs[n]? = some x ∧ bs[n]? = some b ∧ q ∈ comparisonsOf (k + n) x b := by
  induction xs generalizing k bs with
  | nil => simp [comparisonsFrom]
  | cons x xs ih =>
    cases bs with
    | nil => simp [comparisonsFrom]
    | cons b bs =>
      rw [comparisonsFrom, List.mem_append, ih]
      constructor
      · rintro (hq | ⟨n, x', b', hx, hb, hq⟩)
        · exact ⟨0, x, b, rfl, rfl, hq⟩
        · exact ⟨n + 1, x', b', hx, hb, by rwa [Nat.add_right_comm] at hq⟩
      · rintro ⟨n, x', b', hx, hb, hq⟩
        cases n with
        | zero =>
          cases hx
          cases hb
          exact .inl hq
        | succ n => exact .inr ⟨n, x', b', hx, hb, by rwa [Nat.add_right_comm]⟩

theorem pairwise_comparisonsOf (k : Nat) (x : BufferEntry) (b : Buffer) :
    (comparisonsOf k x b).Pairwise (·.place < ·.place) := by
  rw [List.pairwise_iff_getElem]
  intro i j hi hj hlt
  refine Prod.Lex.toLex_lt_toLex.mpr (.inr ⟨?_, ?_⟩)
  · simp [comparisonsOf]
  · simpa [comparisonsOf] using hlt

theorem pairwise_comparisonsFrom (k : Nat) (xs : List BufferEntry) (bs : List Buffer) :
    (comparisonsFrom k xs bs).Pairwise (·.place < ·.place) := by
  induction xs generalizing k bs with
  | nil => exact .nil
  | cons x xs ih =>
    cases bs with
    | nil => exact .nil
    | cons b bs =>
      refine List.pairwise_append.mpr ⟨pairwise_comparisonsOf k x b, ih (k + 1) bs, ?_⟩
      intro q hq q' hq'
      obtain ⟨n, x', b', -, -, hq'⟩ := mem_comparisonsFrom.mp hq'
      have hposition := (mem_comparisonsOf.mp hq).1
      have hposition' := (mem_comparisonsOf.mp hq').1
      refine Prod.Lex.toLex_lt_toLex.mpr (.inl ?_)
      rw [hposition, hposition']
      change k < k + 1 + n
      omega

theorem length_comparisonsFrom (k : Nat) (h : bs.length = xs.length) :
    (comparisonsFrom k xs bs).length = (xs.map fun x => x.expected.length).sum := by
  induction xs generalizing k bs with
  | nil => rfl
  | cons x xs ih =>
    cases bs with
    | nil => cases h
    | cons b bs =>
      rw [comparisonsFrom, List.length_append, ih (k + 1) (Nat.succ.inj h), List.map_cons,
        List.sum_cons, comparisonsOf, List.length_map, List.length_zipIdx]

end

end Lockstep
