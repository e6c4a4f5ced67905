import Lockstep.Proofs.Loop.Moves
import Lockstep.Proofs.Run.Typed
import Lockstep.Proofs.Step.Failure

/-!
# Counters of properly nested loops

A loop has a counter while control is in its body, and while it is back at the
loop from the end of the body. So the faults that an interpreter reports when
this goes wrong do not occur, counters can be read in the body, and never after
it.
-/

namespace Lockstep

variable {p : Program} {c d : Context} {o : Option Nat}

/-- Control is in the body of the loop, or has come back to the loop from its
end. -/
def Inside (l e : Nat) (o : Option Nat) (c : Context) : Prop :=
  (l < c.pc ∧ c.pc ≤ e) ∨ (c.pc = l ∧ o = some e)

/-- What holds of the loops wherever a run of a properly nested program arrives.
The position is that of the instruction executed last. -/
structure Live (p : Program) (o : Option Nat) (c : Context) : Prop where
  counter : ∀ l e, p.Spans l e → (c.values.contains l = true ↔ Inside l e o c)
  scalar : ∀ l v, p.isLoopAt l = true → c.values.get? l = some v → ∃ lanes, v = .scalar lanes
  /-- an end just passed is on record -/
  recorded : ∀ l e, p.Spans l e → o = some e → c.loopEnds.get? l = some e

theorem Table.contains_iff_ne_none {α : Type} {t : Table α} {q : Nat} :
    t.contains q = true ↔ t.get? q ≠ none := by
  rw [contains, Option.isSome_iff_ne_none]

theorem Table.contains_congr {α : Type} {t t' : Table α} {q : Nat} (h : t'.get? q = t.get? q) :
    t'.contains q = t.contains q := by
  rw [contains, contains, h]

theorem live_start (point : Point) (warp : Warp) (buffers : List Buffer)
    (launchValues : List Value) : Live p none (.start point warp buffers launchValues) where
  counter l e hl := by
    refine iff_of_false (by simp [Context.start, Table.contains]) ?_
    rintro (⟨hlt, -⟩ | ⟨-, ho⟩)
    · exact absurd hlt (Nat.not_lt_zero l)
    · cases ho
  scalar l v hl hv := by cases hv
  recorded l e hl ho := by cases ho

namespace Live

variable (hp : p.Accepted) (hn : p.ProperlyNested)

theorem inside_of_ne {l e : Nat} (h : c.pc ≠ l) : Inside l e o c ↔ l < c.pc ∧ c.pc ≤ e :=
  ⟨fun h' => h'.resolve_right fun h'' => h h''.1, .inl⟩

/-- A loop with a counter, when control is at the loop, has come back from its
end. -/
theorem come_back (h : Live p o c) {l e : Nat} (hl : p.Spans l e) (hpc : c.pc = l)
    (hc : c.values.get? l ≠ none) : o = some e := by
  rcases (h.counter l e hl).mp (Table.contains_iff_ne_none.mpr hc) with ⟨hlt, -⟩ | ⟨-, ho⟩
  · exact absurd hpc (Nat.ne_of_gt hlt)
  · exact ho

include hn in
/-- The end on record when a loop with a counter is visited is the end of that
loop. -/
theorem spans_of_recorded (h : Live p o c) (hloop : p.isLoopAt c.pc = true)
    (hc : c.values.get? c.pc ≠ none) {e : Nat} (he : c.loopEnds.get? c.pc = some e) :
    p.Spans c.pc e := by
  obtain ⟨e', he'⟩ := hn.closed _ hloop
  have hrec := h.recorded _ _ ⟨hloop, he'⟩ (h.come_back ⟨hloop, he'⟩ rfl hc)
  rw [he] at hrec
  cases hrec
  exact ⟨hloop, he'⟩

include hp hn in
/-- Control crosses the bounds of other loops only together with all loops
between. -/
theorem inside_step (h : Live p o c) (hm : Moves p c d) {l e : Nat} (hl : p.Spans l e)
    (hne : l ≠ c.pc) : (l < c.pc ∧ c.pc ≤ e) ↔ Inside l e (some c.pc) d := by
  rw [Inside, Option.some.injEq]
  have hlt : l < e := hp.lt_of_endsLoop hl.2
  cases hm with
  | on hu hk hk' hpc hends hvalues =>
    have hend : c.pc ≠ e := by
      rintro rfl
      exact hk' (hl.2.kind hu)
    omega
  | @back l₀ he hpc hends hvalues =>
    have hlt₀ : l₀ < c.pc := hp.lt_of_endsLoop he
    by_cases hll : l = l₀
    · subst hll
      obtain rfl : c.pc = e := hn.unique _ _ _ he hl.2
      omega
    · have := hn.strict hp hl (hp.spans_of_endsLoop he) hll
      omega
  | enter hu hk ht hg hnone hv hw hpc hends hvalues =>
    have hend := hl.2.ne_of_isLoopAt (Program.isLoopAt_of_kind hu hk)
    omega
  | again hu hk hg hsome hi hv hr hpc hends hvalues =>
    have hend := hl.2.ne_of_isLoopAt (Program.isLoopAt_of_kind hu hk)
    omega
  | @leave u ops counter next stop e₀ hu hk hg hsome hi hv hr he hpc hends hvalues =>
    have hloop : p.isLoopAt c.pc = true := Program.isLoopAt_of_kind hu hk
    have hspan : p.Spans c.pc e₀ := h.spans_of_recorded hn hloop (by rw [hsome]; simp) he
    have hlt₀ : c.pc < e₀ := hp.lt_of_endsLoop hspan.2
    have hend := hl.2.ne_of_isLoopAt hloop
    have := hn.strict hp hl hspan hne
    omega

include hp hn in
theorem counter_step (h : Live p o c) (hm : Moves p c d) {l e : Nat} (hl : p.Spans l e) :
    d.values.contains l = true ↔ Inside l e (some c.pc) d := by
  by_cases hne : l = c.pc
  · subst hne
    have hlt : c.pc < e := hp.lt_of_endsLoop hl.2
    have hbody : d.pc = c.pc + 1 → Inside c.pc e (some c.pc) d := fun hpc => .inl (by omega)
    rw [Table.contains_iff_ne_none]
    cases hm with
    | on hu hk hk' hpc hends hvalues =>
      exact absurd (Program.kind_of_isLoopAt hl.1 hu) hk
    | back he hpc hends hvalues =>
      exact absurd rfl (he.ne_of_isLoopAt hl.1)
    | enter hu hk ht hg hnone hv hw hpc hends hvalues =>
      rw [hvalues]
      exact iff_of_true (by simp) (hbody hpc)
    | again hu hk hg hsome hi hv hr hpc hends hvalues =>
      rw [hvalues]
      exact iff_of_true (by simp) (hbody hpc)
    | @leave u ops counter next stop e₀ hu hk hg hsome hi hv hr he hpc hends hvalues =>
      have hspan : p.Spans c.pc e₀ := h.spans_of_recorded hn hl.1 (by rw [hsome]; simp) he
      obtain rfl : e = e₀ := hn.unique _ _ _ hl.2 hspan.2
      rw [hvalues]
      refine iff_of_false (by simp) ?_
      rw [Inside, Option.some.injEq]
      omega
  · rw [Table.contains_congr (hm.values_loop hl.1 hne), h.counter l e hl,
      inside_of_ne fun h' => hne h'.symm]
    exact h.inside_step hp hn hm hl hne

theorem scalar_step (h : Live p o c) (hm : Moves p c d) {l : Nat} {v : LaneValues}
    (hl : p.isLoopAt l = true) (hv : d.values.get? l = some v) : ∃ lanes, v = .scalar lanes := by
  by_cases hne : l = c.pc
  · subst hne
    cases hm with
    | on hu hk hk' hpc hends hvalues =>
      rw [hvalues _ hl] at hv
      exact h.scalar _ _ hl hv
    | back he hpc hends hvalues =>
      rw [hvalues] at hv
      exact h.scalar _ _ hl hv
    | enter hu hk ht hg hnone hv' hw hpc hends hvalues =>
      rw [hvalues, Table.get?_insert_self] at hv
      exact ⟨_, (Option.some.inj hv).symm⟩
    | again hu hk hg hsome hi hv' hr hpc hends hvalues =>
      rw [hvalues, Table.get?_insert_self] at hv
      exact ⟨_, (Option.some.inj hv).symm⟩
    | leave hu hk hg hsome hi hv' hr he hpc hends hvalues =>
      rw [hvalues, Table.get?_erase_self] at hv
      cases hv
  · rw [hm.values_loop hl hne] at hv
    exact h.scalar l v hl hv

include hp in
theorem recorded_step (hm : Moves p c d) {l e : Nat} (hl : p.Spans l e) (he : c.pc = e) :
    d.loopEnds.get? l = some e := by
  subst he
  cases hm with
  | back he hpc hends hvalues =>
    obtain rfl := hp.endsLoop_inj hl.2 he
    rw [hends]
    simp
  | on hu hk hk' hpc hends hvalues =>
    exact absurd (hl.2.kind hu) hk'
  | enter hu hk ht hg hnone hv hw hpc hends hvalues =>
    exact absurd rfl (hl.2.ne_of_isLoopAt (Program.isLoopAt_of_kind hu hk))
  | again hu hk hg hsome hi hv hr hpc hends hvalues =>
    exact absurd rfl (hl.2.ne_of_isLoopAt (Program.isLoopAt_of_kind hu hk))
  | leave hu hk hg hsome hi hv hr he hpc hends hvalues =>
    exact absurd rfl (hl.2.ne_of_isLoopAt (Program.isLoopAt_of_kind hu hk))

include hp hn in
theorem preserved (h : Live p o c) (hs : Steps p c d) : Live p (some c.pc) d where
  counter _ _ hl := h.counter_step hp hn (moves_of_steps hn.phis hs) hl
  scalar _ _ hl hv := h.scalar_step (moves_of_steps hn.phis hs) hl hv
  recorded _ _ hl ho := recorded_step hp (moves_of_steps hn.phis hs) hl (Option.some.inj ho)

end Live

/-- The invariant holds wherever a run from the start arrives. -/
theorem Arrives.live (hp : p.Accepted) (hn : p.ProperlyNested) {c₀ : Context}
    (h₀ : Live p none c₀) (h : Arrives p c₀ o c) : Live p o c := by
  induction h with
  | start => exact h₀
  | step h hs ih => exact ih.preserved hp hn hs

/-! ## Consequences -/

/-- The faults that report a loop without an end on record, or with a counter
that is not a scalar. -/
def Fault.isLoopFault : Fault → Bool
  | .malformed _ .loopEnd | .malformed _ .loopCounter => true
  | _ => false

theorem isLoopFault_of_isData {f : Fault} (h : f.isData = true) : f.isLoopFault = false := by
  cases f with
  | malformed q m => cases h
  | _ => rfl

theorem Refuses.isLoopFault {u : Uop} {ops : List Operand} {f : Fault} (h : Refuses p u c ops f) :
    f.isLoopFault = false := by
  cases h with
  | data hf => exact isLoopFault_of_isData hf
  | @own m hm =>
    cases m with
    | loopEnd => cases hm
    | loopCounter => cases hm
    | _ => rfl
  | unbound hk ho hv hf =>
    obtain ⟨v, -, -, a, rfl⟩ := hf
    rfl
  | _ => rfl

theorem Loop.MissesBound.isLoopFault {pc i : Nat} {ops : List Operand} {f : Fault}
    (h : MissesBound pc ops i f) : f.isLoopFault = false := by
  rcases h with h | ⟨-, rfl⟩ | rfl
  · exact isLoopFault_of_isData h
  · rfl
  · rfl

/-- No step from a context in which the invariant holds reports a loop. -/
theorem Live.isLoopFault_step (hn : p.ProperlyNested) (h : Live p o c) {f : Fault}
    (hf : (step p c).2 = .error f) : f.isLoopFault = false := by
  obtain ⟨c', hs⟩ : ∃ c', step p c = (c', .error f) := ⟨_, Prod.ext rfl hf⟩
  cases breaks_of_step hs with
  | unnamed hu hk hsrc => rfl
  | unread hu hk hm hg =>
    obtain ⟨s, -, rfl | rfl⟩ := gather_raises f hg
    · rfl
    · rfl
  | store hu hk hg hw =>
    rcases storeWrites_raises _ _ f hw with h | ⟨-, rfl | rfl⟩
    · exact isLoopFault_of_isData h
    · rfl
    · rfl
  | write hu hk hg hw hm =>
    rcases perform_storeWrites_raises hw c.memory f (by rw [hm]) with h | ⟨v, -, -, a, rfl⟩
    · exact isLoopFault_of_isData h
    · rfl
  | untyped hu hk hg hd => rfl
  | produce hu hk hd hg hp => exact (refuses_of_produce hp).isLoopFault
  | enter hu hk hd hg hnone he => exact (Loop.enter_raises f he).isLoopFault
  | advance hu hk hd hg hsome ha => exact (Loop.advance_raises f ha).isLoopFault
  | unrecorded hu hk hd hg hsome ha hr he =>
    have hloop : p.isLoopAt c.pc = true := Program.isLoopAt_of_kind hu hk
    obtain ⟨e, hend⟩ := hn.closed _ hloop
    have hback := h.come_back ⟨hloop, hend⟩ rfl (by rw [hsome]; simp)
    rw [h.recorded _ _ ⟨hloop, hend⟩ hback] at he
    cases he
  | shapeless hu hk hd hg hsome hshape =>
    obtain ⟨lanes, rfl⟩ := h.scalar _ _ (Program.isLoopAt_of_kind hu hk) hsome
    cases hshape

/-- An instruction after the end of a loop that names the loop fails, as an
operand of it has no value. -/
theorem Live.fails_after (hp : p.Accepted) (h : Live p o c) (ht : c.Typed) {l e : Nat} {u : Uop}
    (hl : p.Spans l e) (he : e < c.pc) (hu : p.get? c.pc = some u)
    (hk : u.kind = .store ∨ u.kind.isVoid = false) (hsrc : l ∈ u.src) :
    ∃ q ∈ u.src, (step p c).2 = .error (.malformed c.pc (.operandValue q)) := by
  have hlt : l < e := hp.lt_of_endsLoop hl.2
  have hnone : c.values.get? l = none := by
    by_contra hsome
    have := (Live.inside_of_ne (by omega)).mp
      ((h.counter l e hl).mp (Table.contains_iff_ne_none.mpr hsome))
    omega
  have hmem : l ∈ p.valueOperands u :=
    Program.mem_valueOperands.mpr ⟨hsrc, Program.isVoidAt_of_isLoopAt hl.1⟩
  have herr : c.operand l = .error (.malformed c.pc (.operandValue l)) := by
    rw [Context.operand, hnone]
  obtain ⟨f, hf⟩ := mapM_eq_error hmem herr
  have hgather : gather p u c = .error f := hf
  have hend : u.kind ≠ .endLoop ∧ u.kind.isMarker = false := by
    rcases hk with hk | hk
    · simp [hk, Kind.isMarker]
    · cases hkind : u.kind <;> simp_all [Kind.isVoid, Kind.isMarker]
  rw [step_of_gather_error hu hend.1 hend.2 hgather]
  -- the operand that is missed first need not be the loop
  obtain ⟨q, hq, -, rfl⟩ := gather_raises_of_typed ht f hgather
  exact ⟨q, (Program.mem_valueOperands.mp hq).1, rfl⟩

/-- In a properly nested program a loop has a counter exactly while control is
in its body or has come back from its end. So no step finds a loop without an
end on record or a counter that is not a scalar; in the body the counter can be
read; and an instruction after the end that names the loop fails for want of an
operand. -/
theorem counter_iff_inside {point : Point} {warp : Warp} {buffers : List Buffer}
    {launchValues : List Value} (hp : p.validate = .ok ()) (hn : p.ProperlyNested)
    (h : Arrives p (.start point warp buffers launchValues) o c) :
    (∀ l e, p.Spans l e → (c.values.contains l = true ↔
      (l < c.pc ∧ c.pc ≤ e) ∨ (c.pc = l ∧ o = some e))) ∧
    (∀ f, (step p c).2 = .error f → ∀ pc,
      f ≠ .malformed pc .loopEnd ∧ f ≠ .malformed pc .loopCounter) ∧
    (∀ l e, p.Spans l e → l < c.pc → c.pc ≤ e →
      ∃ lanes t, c.operand l = .ok ⟨.scalar lanes, t⟩) ∧
    (∀ l e u, p.Spans l e → e < c.pc → p.get? c.pc = some u →
      u.kind = .store ∨ u.kind.isVoid = false → l ∈ u.src →
      ∃ q ∈ u.src, (step p c).2 = .error (.malformed c.pc (.operandValue q))) := by
  have hacc : p.Accepted := Program.accepted_of_validate hp
  have hlive : Live p o c := h.live hacc hn (live_start point warp buffers launchValues)
  have htyped : c.Typed := h.typed (Context.typed_start point warp buffers launchValues)
  refine ⟨fun l e hl => hlive.counter l e hl, ?_, ?_, ?_⟩
  · intro f hf pc
    have hno := hlive.isLoopFault_step hn hf
    constructor
    · rintro rfl
      cases hno
    · rintro rfl
      cases hno
  · intro l e hl hlt hle
    have hsome : c.values.contains l = true := (hlive.counter l e hl).mpr (.inl ⟨hlt, hle⟩)
    obtain ⟨v, hv⟩ := Option.isSome_iff_exists.mp hsome
    obtain ⟨lanes, rfl⟩ := hlive.scalar l v hl.1 hv
    obtain ⟨t, ht⟩ := htyped.operand hv
    exact ⟨lanes, t, ht⟩
  · intro l e u hl he hu hk hsrc
    exact hlive.fails_after hacc htyped hl he hu hk hsrc

/-- Back at the loop from its end, the loop has a counter. -/
theorem counter_iff_inside_twoRounds :
    (run .twoRounds 4 (.start ⟨0, 0, 0⟩ ⟨⟨1, 1, 1⟩⟩ [] [])).1.values.contains 2 = true := by
  have h := @arrives_of_unfinished .twoRounds (.start ⟨0, 0, 0⟩ ⟨⟨1, 1, 1⟩⟩ [] []) 3 (by decide)
  have hspans : Program.twoRounds.Spans 2 3 := ⟨rfl, _, rfl, rfl, List.mem_singleton.mpr rfl⟩
  have hlive := (counter_iff_inside (by decide) (by decide) h).1 2 3 hspans
  exact hlive.mpr (.inr ⟨rfl, rfl⟩)

end Lockstep
