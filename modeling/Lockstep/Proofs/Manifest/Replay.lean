import Lockstep.Proofs.Binary.Rounded
import Lockstep.Proofs.Manifest.Report

/-!
# Replays

The contents of the buffers after a run, written down as what is expected of them, are met when
the manifest is run again, but for the infinities: the tolerance of a float is relative, so that
of an infinity is infinite, while its distance from itself is no number. An infinity that is
expected is met by every number except itself.
-/

namespace Lockstep

/-! ## The comparison of floats -/

theorem tolerance_eq : tolerance = ⟨0x3EE4F8B588E368F1⟩ := by
  decide +kernel

namespace Literal

open Binary64

variable {x : Binary64} {v : Value} {s : Bool}

/-- What the tolerance is relative to. -/
def scale (e : Binary64) : Binary64 :=
  if e.abs.lt .one || e.isNaN then .one else e.abs

theorem isMetBy_float (e : Binary64) (v : Value) : (Literal.float e).isMetBy v =
    (e.isNaN && v.toFloat.isNaN || (v.toFloat.sub e).abs.le (tolerance.mul (scale e))) := rfl

theorem scale_nonnegative (h : x.isNaN = false) :
    (scale x).isNaN = false ∧ (scale x).negative = false := by
  unfold scale
  split
  · exact ⟨rfl, rfl⟩
  · exact ⟨by rw [isNaN_abs, h], negative_abs x⟩

theorem margin_nonnegative (h : x.isNaN = false) :
    (tolerance.mul (scale x)).isNaN = false ∧ (tolerance.mul (scale x)).negative = false := by
  obtain ⟨hscale, hsign⟩ := scale_nonnegative h
  have hfinite : tolerance.isFinite = true := by
    rw [tolerance_eq]
    rfl
  have hpos : 0 < tolerance.magnitude := by
    rw [tolerance_eq]
    decide
  have hpositive : tolerance.negative = false := by
    rw [tolerance_eq]
    rfl
  exact mul_nonnegative hfinite hpos hpositive hscale hsign

/-- The margin around an infinity is infinite. -/
theorem margin_infinity (s : Bool) : tolerance.mul (scale (infinity s)) = infinity false := by
  rw [tolerance_eq]
  cases s <;> rfl

/-- A finite number is met by itself. -/
theorem isMetBy_self_of_isFinite (h : x.isFinite = true) (hv : v.toFloat = x) :
    (Literal.float x).isMetBy v = true := by
  obtain ⟨hmargin, hsign⟩ := margin_nonnegative (isNaN_of_isFinite h)
  have hdistance : (x.sub x).abs = .zero := by
    rw [sub_self h]
    rfl
  rw [isMetBy_float, hv, hdistance, zero_le hmargin hsign, Bool.or_true]

/-- An infinity is met by every number but itself. -/
theorem isMetBy_infinity_iff : (Literal.float (infinity s)).isMetBy v = true ↔
    v.toFloat.isNaN = false ∧ v.toFloat ≠ infinity s := by
  rw [isMetBy_float, isNaN_infinity, Bool.false_and, Bool.false_or, margin_infinity]
  constructor
  · intro hle
    constructor
    · by_contra hnan
      have hdistance : (v.toFloat.sub (infinity s)).abs.isNaN = true := by
        rw [isNaN_abs]
        exact isNaN_sub_left (eq_true_of_ne_false hnan) _
      rw [not_le_of_isNaN hdistance] at hle
      cases hle
    · intro heq
      have hdistance : ((infinity s).sub (infinity s)).abs.isNaN = true := by
        rw [sub_self_infinity]
        rfl
      rw [heq, not_le_of_isNaN hdistance] at hle
      cases hle
  · rintro ⟨hnan, hne⟩
    rw [abs_sub_infinity hnan hne]
    rfl

end Literal

/-! ## Contents as expectations -/

namespace Value

/-- The literal that a manifest lists for a value. -/
def literal : Value → Literal
  | bool b => .bool b
  | int _ i => .int i
  | float _ x => .float x

/-- A float that is one of the two infinities. -/
def isInfinite : Value → Bool
  | float _ x => x.magnitude == Binary64.infinityMagnitude
  | _ => false

/-- Only an infinity is not met by itself. -/
theorem isMetBy_literal (v : Value) : v.literal.isMetBy v = !v.isInfinite := by
  cases v with
  | bool b => exact beq_self_eq_true _
  | int t i => exact beq_self_eq_true i
  | float t x =>
    rcases Nat.lt_trichotomy x.magnitude Binary64.infinityMagnitude with hlt | heq | hlt
    · have hmet : (Literal.float x).isMetBy (float t x) = true :=
        Literal.isMetBy_self_of_isFinite (decide_eq_true hlt) rfl
      rw [literal, hmet, isInfinite, beq_false_of_ne (Nat.ne_of_lt hlt)]
      rfl
    · obtain ⟨s, rfl⟩ := Binary64.eq_infinity_iff.mp heq
      have hunmet : (Literal.float (.infinity s)).isMetBy (float t (.infinity s)) = false := by
        rw [Bool.eq_false_iff, Ne, Literal.isMetBy_infinity_iff]
        exact fun h => h.2 rfl
      rw [literal, hunmet, isInfinite, heq]
      rfl
    · have hnan : x.isNaN = true := decide_eq_true hlt
      have hfloat : (float t x).toFloat = x := rfl
      rw [literal, Literal.isMetBy_float, hfloat, hnan, isInfinite,
        beq_false_of_ne (Nat.ne_of_gt hlt)]
      rfl

end Value

namespace BufferEntry

/-- The entry with these contents as what is expected. -/
def expecting (x : BufferEntry) (b : Buffer) : BufferEntry :=
  { x with expect := some (b.toValues.map Value.literal) }

theorem expected_expecting (x : BufferEntry) (b : Buffer) :
    (x.expecting b).expected = b.toValues.map Value.literal := rfl

end BufferEntry

/-- Of the contents of a buffer all values are met but the infinities. -/
theorem holds_comparisonsOf_expecting (k : Nat) (x : BufferEntry) (b : Buffer) :
    (comparisonsOf k (x.expecting b) b).map (·.holds) = b.toValues.map (!·.isInfinite) := by
  have hvalues : b.toValues.zipIdx.map (·.1) = b.toValues := List.zipIdx_map_fst 0 b.toValues
  rw [comparisonsOf, BufferEntry.expected_expecting, List.zipIdx_map, List.map_map, List.map_map]
  conv_rhs => rw [← hvalues, List.map_map]
  apply List.map_congr_left
  rintro ⟨v, i⟩ hmem
  have hread : b.read? i = some v := by
    rw [← b.getElem?_toValues]
    exact List.mk_mem_zipIdx_iff_getElem?.mp hmem
  change (b.read? i).any v.literal.isMetBy = !v.isInfinite
  rw [hread, Option.any_some, v.isMetBy_literal]

theorem holds_comparisonsFrom_expecting (k : Nat) {xs : List BufferEntry} {bs : List Buffer}
    (h : bs.length = xs.length) :
    (comparisonsFrom k (List.zipWith BufferEntry.expecting xs bs) bs).map (·.holds) =
      bs.flatMap fun b => b.toValues.map (!·.isInfinite) := by
  induction xs generalizing k bs with
  | nil =>
    rw [List.length_eq_zero_iff.mp h]
    rfl
  | cons x xs ih =>
    cases bs with
    | nil => cases h
    | cons b bs =>
      rw [List.zipWith_cons_cons, comparisonsFrom, List.map_append, List.flatMap_cons,
        holds_comparisonsOf_expecting, ih (k + 1) (Nat.succ.inj h)]

namespace Manifest

variable {m : Manifest} {limit : Nat} {wait : Bool} {r : Report} {bs : List Buffer}

/-- The manifest with these contents as what is expected of all its buffers. -/
def expecting (m : Manifest) (bs : List Buffer) : Manifest :=
  { m with buffers := List.zipWith BufferEntry.expecting m.buffers bs }

/-- What is expected of a buffer has no part in its first contents. -/
theorem mapM_input_expecting (xs : List BufferEntry) (h : bs.length = xs.length) :
    (List.zipWith BufferEntry.expecting xs bs).mapM BufferEntry.input =
      xs.mapM BufferEntry.input := by
  induction xs generalizing bs with
  | nil => rfl
  | cons x xs ih =>
    cases bs with
    | nil => cases h
    | cons b bs =>
      rw [List.zipWith_cons_cons, List.mapM_cons, List.mapM_cons, ih (Nat.succ.inj h)]
      rfl

theorem execute_expecting (h : bs.length = m.buffers.length) :
    (m.expecting bs).execute limit wait = m.execute limit wait := by
  have hinputs : (m.expecting bs).inputs = m.inputs := mapM_input_expecting m.buffers h
  unfold execute
  rw [hinputs]
  rfl

/-- The report of a run whose expectations are the contents of its buffers. -/
structure Replays (bs : List Buffer) (r : Report) : Prop where
  total : r.tally.total = (bs.map (·.length)).sum
  correct : r.tally.correct = (bs.map fun b => b.toValues.countP (!·.isInfinite)).sum
  passed_iff : r.passed = true ↔ ∀ b ∈ bs, ∀ v ∈ b.toValues, v.isInfinite = false

theorem replays_of_tally (hlen : bs.length = m.buffers.length)
    (h : r.tally = .ofComparisons ((m.expecting bs).comparisons bs)) : Replays bs r := by
  have hholds : ((m.expecting bs).comparisons bs).map (·.holds) =
      bs.flatMap fun b => b.toValues.map (!·.isInfinite) :=
    holds_comparisonsFrom_expecting 0 hlen
  refine ⟨?_, ?_, ?_⟩
  · have hlength := congrArg List.length hholds
    simp only [List.length_map, List.length_flatMap, Buffer.length_toValues] at hlength
    rw [h]
    exact hlength
  · have hcount := congrArg (List.countP id) hholds
    simp only [List.countP_map, List.countP_flatMap, Function.comp_def, id] at hcount
    rw [h]
    exact hcount
  · have hall : (∀ q ∈ (m.expecting bs).comparisons bs, q.holds = true) ↔
        ∀ y ∈ ((m.expecting bs).comparisons bs).map (·.holds), y = true := by
      simp
    rw [passed_iff h, hall, hholds]
    simp

/-- A manifest that runs does so again with the contents of its buffers as what is expected of
them. The buffers are the same, and the run passes unless they hold an infinity; an infinity
that is expected is met by the numbers that differ from it. -/
theorem replay_passes_iff (h : m.run limit wait = .ok r) :
    (∃ e bs r', m.execute limit wait = .ok (e, bs) ∧
      (m.expecting bs).execute limit wait = .ok (e, bs) ∧
      (m.expecting bs).run limit wait = .ok r' ∧ Replays bs r') ∧
    ∀ (s : Bool) (v : Value), (Literal.float (.infinity s)).isMetBy v = true ↔
      v.toFloat.isNaN = false ∧ v.toFloat ≠ .infinity s := by
  refine ⟨?_, fun s v => Literal.isMetBy_infinity_iff⟩
  obtain ⟨e, bs, hexecute, -⟩ := run_eq_ok.mp h
  have hlen := length_execute hexecute
  have hagain : (m.expecting bs).execute limit wait = .ok (e, bs) := by
    rw [execute_expecting hlen, hexecute]
  have hrun := run_eq_ok.mpr ⟨e, bs, hagain, rfl⟩
  exact ⟨e, bs, _, hexecute, hagain, hrun, replays_of_tally hlen (tally_of_run hrun hagain)⟩

/-- One buffer of doubles that no instruction changes. -/
def holding (xs : List Binary64) : Manifest where
  name := "limits"
  description := ""
  global := unitPoint
  warp := unitPoint
  launchValues := []
  buffers := [⟨"out", "float64", xs.length, .values (xs.map .float), none⟩]
  uops := []

theorem replay_passes_iff_holding :
    let m := holding [.one, .undefined]
    let r : Report := ⟨"limits", ⟨0, 0, none⟩, 0, false⟩
    m.run 1 false = .ok r ∧
      (∃ e bs r', m.execute 1 false = .ok (e, bs) ∧
        (m.expecting bs).execute 1 false = .ok (e, bs) ∧
        (m.expecting bs).run 1 false = .ok r' ∧ Replays bs r') ∧
      ∀ (s : Bool) (v : Value), (Literal.float (.infinity s)).isMetBy v = true ↔
        v.toFloat.isNaN = false ∧ v.toFloat ≠ .infinity s := by
  intro m r
  have hrun : m.run 1 false = .ok r := by decide +kernel
  exact ⟨hrun, replay_passes_iff hrun⟩

/-- A run whose buffer holds an infinity does not pass when that is what is expected of it;
it would pass if the buffer held a one. -/
theorem replay_of_infinity_fails :
    let m := holding [.infinity false]
    (∃ e b r', m.execute 1 false = .ok (e, [b]) ∧
      b.toValues = [.float .float64 (.infinity false)] ∧
      (m.expecting [b]).run 1 false = .ok r' ∧ r'.passed = false) ∧
    (Literal.float (.infinity false)).isMetBy (.float .float64 .one) = true := by
  intro m
  refine ⟨⟨⟨⟨[]⟩, .completed, 1, 0⟩, ⟨.float .float64, #[0, 0, 0, 0, 0, 0, 0xF0, 0x7F]⟩,
    ⟨"limits", ⟨0, 1, some ⟨"out", 0, .float (.infinity false),
      some (.float .float64 (.infinity false))⟩⟩, 0, false⟩, ?_, ?_, ?_, rfl⟩, ?_⟩
  · rfl
  · decide +kernel
  · decide +kernel
  · decide +kernel

end Manifest

end Lockstep
