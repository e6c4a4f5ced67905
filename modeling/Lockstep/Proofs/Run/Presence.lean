import Lockstep.Proofs.Loop.Shape
import Lockstep.Proofs.Run.Lanes
import Lockstep.Proofs.Step.Failure

/-!
# What control has passed

Control goes on by one instruction, back to a loop, or past an end that it has
seen. So it never gets beyond an instruction that it has not executed, and what
the checks of a program promise about operands holds while it runs: an operand
is missing only if it is a loop that has been left.
-/

namespace Lockstep

/-- The loop at the position has been left, and has not been visited since. -/
inductive Exited (p : Program) (c₀ : Context) (q : Nat) : Context → Prop where
  /-- a visit of a loop leaves it when it answers with a jump -/
  | leave {o : Option Nat} {x y : Context} {t : Nat} (h : Arrives p c₀ o x) (hq : x.pc = q)
      (hl : p.isLoopAt q = true) (hj : (step p x).2 = .ok (.jump t)) (hs : Steps p x y) :
      Exited p c₀ q y
  | stay {x y : Context} (h : Exited p c₀ q x) (hq : x.pc ≠ q) (hs : Steps p x y) :
      Exited p c₀ q y

variable {p : Program} {c₀ c d : Context} {o : Option Nat} {q : Nat}

/-! ## One step -/

/-- A producing instruction has a value when it is done. -/
theorem Makes.values_own {u : Uop} {t : DType} {ops : List Operand} (h : Makes p u t c ops d) :
    d.values.get? c.pc ≠ none := by
  cases h with
  | nameless hk hc => exact Option.isSome_iff_ne_none.mp hc
  | _ =>
    rw [Context.define_values]
    simp

/-- No other instruction gives a value to a position that has none: a phi finds
its accumulator among its operands. -/
theorem Steps.values_none (h : Steps p c d) (hq : q ≠ c.pc) (hv : c.values.get? q = none) :
    d.values.get? q = none := by
  obtain ⟨c', k, hs, hne, rfl⟩ := h
  rw [Context.follow_values]
  cases fires_of_step hs with
  | produce hu hk hd hg hp =>
    rw [(makes_of_produce hk hp).values_eq, Context.declared_values, Context.counted_values, hv]
    rintro (he | ⟨-, ha⟩)
    · exact hq he
    · obtain ⟨a, -, ha⟩ := operand_of_gather hg (List.mem_of_mem_head? ha)
      rw [(operand_eq_ok.mp ha).1] at hv
      cases hv
  | enter hu hk hd hg hn hv' hw => exact (Table.get?_insert_of_ne _ hq _).trans hv
  | again hu hk hd hg hn hi hv' hr => exact (Table.get?_insert_of_ne _ hq _).trans hv
  | leave hu hk hd hg hn hi hv' hr he => exact (Table.get?_erase_of_ne _ hq).trans hv
  | _ => exact hv

/-- Control goes on by one at most, or past the end on record for the loop that
it is at. -/
theorem Steps.pc_bound (hp : p.Accepted) (h : Steps p c d) :
    d.pc ≤ c.pc + 1 ∨ ∃ e, c.loopEnds.get? c.pc = some e ∧ d.pc = e + 1 := by
  obtain ⟨c', k, hs, hne, rfl⟩ := h
  cases fires_of_step hs with
  | halt hu => exact absurd rfl hne
  | @close u l r hu hk hsrc =>
    have hlt : l < c.pc := hp.src_lt hu (by rw [hsrc]; exact List.mem_cons_self)
    exact .inl (Nat.le_succ_of_le (Nat.le_of_lt hlt))
  | mark hu hk => exact .inl (Nat.le_refl _)
  | store hu hk hg hw hm => exact .inl (Nat.le_refl _)
  | produce hu hk hd hg hp => exact .inl (Nat.le_of_eq (congrArg (· + 1) (makes_of_produce hk hp).pc_eq))
  | enter hu hk hd hg hn hv hw => exact .inl (Nat.le_refl _)
  | again hu hk hd hg hn hi hv hr => exact .inl (Nat.le_refl _)
  | leave hu hk hd hg hn hi hv hr he => exact .inr ⟨_, he, rfl⟩

/-- An end that is put on record is where control is. -/
theorem Steps.loopEnds_get? (h : Steps p c d) {l e : Nat} (he : d.loopEnds.get? l = some e) :
    e = c.pc ∨ c.loopEnds.get? l = some e := by
  obtain ⟨c', k, hs, hne, rfl⟩ := h
  have hfollow : (c'.follow k).loopEnds = c'.loopEnds := by cases k <;> rfl
  rw [hfollow] at he
  cases fires_of_step hs with
  | @close u l' r hu hk hsrc =>
    change (c.loopEnds.insert l' c.pc).get? l = some e at he
    by_cases hl : l = l'
    · subst hl
      rw [Table.get?_insert_self] at he
      exact .inl (Option.some.inj he).symm
    · rw [Table.get?_insert_of_ne _ hl] at he
      exact .inr he
  | produce hu hk hd hg hp =>
    rw [(makes_of_produce hk hp).loopEnds_eq] at he
    exact .inr he
  | _ => exact .inr he

/-- An instruction that leaves values leaves one with its type, or leaves its
loop. -/
theorem Steps.own (h : Arrives p c₀ o c) (hs : Steps p c d) {u : Uop} (hu : p.get? c.pc = some u)
    (hv : u.kind.isVoid = false) :
    (d.values.get? c.pc ≠ none ∨ Exited p c₀ c.pc d) ∧ d.types.get? c.pc ≠ none := by
  have hsteps := hs
  obtain ⟨c', k, hs, hne, rfl⟩ := hs
  rw [Context.follow_values, Context.follow_types]
  have hdeclared : ∀ t, (c.counted.declared t).types.get? c.pc ≠ none := by
    intro t
    change (c.types.insert c.pc t).get? c.pc ≠ none
    simp
  have hdefine : ∀ t v, ((c.counted.declared t).define v).values.get? c.pc ≠ none := by
    intro t v
    change (c.values.insert c.pc v).get? c.pc ≠ none
    simp
  have hkind : ∀ {u'}, p.get? c.pc = some u' → u = u' := fun hu' =>
    Option.some.inj (hu.symm.trans hu')
  cases fires_of_step hs with
  | halt hu' => exact absurd rfl hne
  | close hu' hk hsrc =>
    obtain rfl := hkind hu'
    simp [hk, Kind.isVoid] at hv
  | mark hu' hk =>
    obtain rfl := hkind hu'
    cases hkind : u.kind <;> simp_all [Kind.isMarker, Kind.isVoid]
  | store hu' hk hg hw hm =>
    obtain rfl := hkind hu'
    simp [hk, Kind.isVoid] at hv
  | produce hu' hk hd hg hp =>
    have hm := makes_of_produce hk hp
    exact ⟨.inl hm.values_own, by rw [hm.types_eq]; exact hdeclared _⟩
  | enter hu' hk hd hg hn hv' hw => exact ⟨.inl (hdefine _ _), hdeclared _⟩
  | again hu' hk hd hg hn hi hv' hr => exact ⟨.inl (hdefine _ _), hdeclared _⟩
  | leave hu' hk hd hg hn hi hv' hr he =>
    have hjump := congrArg Prod.snd hs
    exact ⟨.inr (.leave h rfl (Program.isLoopAt_of_kind hu' hk) hjump hsteps), hdeclared _⟩

/-! ## Loops that have been left -/

namespace Exited

theorem isLoopAt (h : Exited p c₀ q c) : p.isLoopAt q = true := by
  induction h with
  | leave h hq hl hj hs => exact hl
  | stay h hq hs ih => exact ih

/-- A loop that has been left has no counter. -/
theorem values (h : Exited p c₀ q c) : c.values.get? q = none := by
  induction h with
  | @leave o x y t h hq hl hj hs =>
    obtain ⟨x', k, hs, hne, rfl⟩ := hs
    rw [Context.follow_values]
    rw [hs] at hj
    cases hj
    subst hq
    cases fires_of_step hs with
    | close hu hk hsrc =>
      rw [Program.kind_of_isLoopAt hl hu] at hk
      cases hk
    | leave hu hk hd hg hn hi hv hr he => exact Table.get?_erase_self _ _
  | stay h hq hs ih => exact hs.values_none hq.symm ih

end Exited

/-! ## Runs -/

/-- Every instruction before the position has been executed, and control is not
beyond it. -/
structure Passed (p : Program) (c₀ : Context) (m : Nat) (c : Context) : Prop where
  pc_le : c.pc ≤ m
  /-- only ends that have been executed are on record -/
  end_lt : ∀ l e, c.loopEnds.get? l = some e → e < m
  value : ∀ q u, q < m → p.get? q = some u → u.kind.isVoid = false →
    c.values.get? q ≠ none ∨ Exited p c₀ q c
  type : ∀ q u, q < m → p.get? q = some u → u.kind.isVoid = false → c.types.get? q ≠ none

theorem passed_start (point : Point) (warp : Warp) (buffers : List Buffer)
    (launchValues : List Value) :
    Passed p c₀ 0 (.start point warp buffers launchValues) where
  pc_le := Nat.le_refl 0
  end_lt l e h := by cases h
  value q u h := absurd h (Nat.not_lt_zero q)
  type q u h := absurd h (Nat.not_lt_zero q)

/-- A step takes the frontier along. -/
theorem Passed.preserved (hp : p.Accepted) {m : Nat} (h : Passed p c₀ m c) (ha : Arrives p c₀ o c)
    (hs : Steps p c d) : Passed p c₀ (max m (c.pc + 1)) d where
  pc_le := by
    rcases hs.pc_bound hp with hle | ⟨e, he, hpc⟩
    · omega
    · have := h.end_lt _ _ he
      omega
  end_lt l e he := by
    rcases hs.loopEnds_get? he with rfl | he
    · omega
    · have := h.end_lt l e he
      omega
  value q u hq hu hv := by
    by_cases hpc : q = c.pc
    · subst hpc
      exact (hs.own ha hu hv).1
    · have hlt : q < m := by
        have := h.pc_le
        omega
      rcases h.value q u hlt hu hv with hsome | hexit
      · exact .inl (hs.values_mono (.inl hpc) hsome)
      · exact .inr (.stay hexit (Ne.symm hpc) hs)
  type q u hq hu hv := by
    by_cases hpc : q = c.pc
    · subst hpc
      exact (hs.own ha hu hv).2
    · have := h.pc_le
      exact hs.types_mono (h.type q u (by omega) hu hv)

theorem Arrives.passed (hp : p.Accepted) (h : Arrives p c₀ o c) (h₀ : Passed p c₀ 0 c₀) :
    ∃ m, Passed p c₀ m c := by
  induction h with
  | start => exact ⟨0, h₀⟩
  | step h hs ih =>
    obtain ⟨m, hm⟩ := ih
    exact ⟨_, hm.preserved hp h hs⟩

/-! ## Faults -/

/-- The checks of a program rule the malformation out. -/
def Malformation.isRuledOut : Malformation → Bool
  | operandType _ | missingType _ | missingOperand _ | endLoopOperand | accumulator => true
  | gatedStore | storeOperands _ => true
  | _ => false

/-- The instruction asks for a coordinate under a name that starts neither with
`g` nor with `l`. -/
def Uop.IsNameless (u : Uop) : Prop :=
  u.kind = .special ∧ ∃ dim name, u.arg = .axis dim name ∧
    name.toList.head? ≠ some 'g' ∧ name.toList.head? ≠ some 'l'

/-- The fault is one that an accepted program can raise at a context: nothing is
wrong that the checks look at. -/
structure Fault.Allowed (p : Program) (c : Context) (f : Fault) : Prop where
  operand : ∀ pc n, f = .malformed pc (.operandValue n) → c.values.get? n = none ∧ n < c.pc ∧
    ∃ u, p.get? n = some u ∧ u.kind.isVoid = false
  malformed : ∀ pc m, f = .malformed pc m → m.isRuledOut = false
  noValue : ∀ pc k, f = .noValue pc k → ∃ u, p.get? c.pc = some u ∧ u.IsNameless

theorem Fault.allowed_of_isData {f : Fault} (h : f.isData = true) : f.Allowed p c := by
  constructor
  all_goals
    rintro pc m rfl
    cases h

theorem Fault.allowed_of_malformed {pc : Nat} {m : Malformation} (hm : m.isRuledOut = false)
    (hn : ∀ n, m ≠ .operandValue n) : Fault.Allowed p c (.malformed pc m) where
  operand pc' n h := by
    cases h
    exact absurd rfl (hn n)
  malformed pc' m' h := by
    cases h
    exact hm
  noValue pc' k h := by cases h

theorem Fault.allowed_of_noValue {pc : Nat} {k : Kind}
    (h : ∃ u, p.get? c.pc = some u ∧ u.IsNameless) : Fault.Allowed p c (.noValue pc k) where
  operand pc' n h := by cases h
  malformed pc' m h := by cases h
  noValue pc' k' _ := h

theorem Fault.allowed_of_invalidOperands {op : Operation} {e : OperandFault} :
    Fault.Allowed p c (.invalidOperands op e) := by
  constructor
  all_goals
    intro pc m h
    cases h

/-- Along each of the three axes both kinds of names have coordinates. -/
theorem Context.coordinates?_eq_none {dim : Nat} {name : String} (hdim : dim < 3)
    (h : c.coordinates? dim name = none) :
    name.toList.head? ≠ some 'g' ∧ name.toList.head? ≠ some 'l' := by
  obtain ⟨i, hi⟩ := Point.axis?_of_lt hdim
  unfold Context.coordinates? at h
  split at h
  · rw [hi] at h
    cases h
  · rw [funext hi, List.mapM_pure] at h
    cases h
  · rename_i hg hl
    constructor
    · intro hhead
      obtain ⟨r, hr⟩ := List.head?_eq_some_iff.mp hhead
      exact hg r hr
    · intro hhead
      obtain ⟨r, hr⟩ := List.head?_eq_some_iff.mp hhead
      exact hl r hr

theorem length_of_gather {u : Uop} {ops : List Operand} (h : gather p u c = .ok ops) :
    ops.length = (p.valueOperands u).length :=
  length_of_mapM h

/-- The number of operands that the checks count is the number that there are. -/
theorem takes_of_gather (hp : p.Accepted) {u : Uop} {ops : List Operand} (hu : p.get? c.pc = some u)
    (hg : gather p u c = .ok ops) : Program.takes u ops.length = true := by
  rw [length_of_gather hg]
  exact hp.arity hu

theorem Refuses.allowed (hp : p.Accepted) {u : Uop} {t : DType} {ops : List Operand} {f : Fault}
    (hu : p.get? c.pc = some u) (hg : gather p u c = .ok ops)
    (h : Refuses p u (c.counted.declared t) ops f) : f.Allowed p c := by
  have htakes := takes_of_gather hp hu hg
  cases h with
  | data hf => exact Fault.allowed_of_isData hf
  | @own m hm =>
    apply Fault.allowed_of_malformed
    · cases m <;> simp_all [Malformation.isOwn, Malformation.isRuledOut]
    · rintro n rfl
      cases hm
  | accumulator hk hs =>
    rw [length_of_gather hg, hs] at htakes
    simp [Program.takes, hk] at htakes
  | missing hk ho =>
    have hlen := List.getElem?_eq_none_iff.mp ho
    rcases hk with ⟨hk, rfl⟩ | ⟨hk, rfl⟩
    · simp [Program.takes, hk] at htakes
      omega
    · simp [Program.takes, hk] at htakes
      omega
  | nameless hk ha hdim hn =>
    have hneither := Context.coordinates?_eq_none hdim hn
    exact Fault.allowed_of_noValue ⟨u, hu, hk, _, _, ha, hneither⟩
  | unbound hk ho hv hf =>
    obtain ⟨v, -, -, a, rfl⟩ := hf
    exact Fault.allowed_of_invalidOperands
  | lanes hk hrows hr hne => exact Fault.allowed_of_invalidOperands
  | total hk hx hs hl hne => exact Fault.allowed_of_invalidOperands

theorem Loop.MissesBound.allowed {pc i : Nat} {ops : List Operand} {f : Fault}
    (h : MissesBound pc ops i f) (hi : i < ops.length) : f.Allowed p c := by
  rcases h with h | ⟨hnone, rfl⟩ | rfl
  · exact Fault.allowed_of_isData h
  · have := List.getElem?_eq_none_iff.mp hnone
    omega
  · exact Fault.allowed_of_malformed rfl (by simp)

/-- A step from a context with a type for every value fails only in ways that the
checks allow. -/
theorem Context.Typed.allowed_step (hp : p.Accepted) (ht : c.Typed) {f : Fault}
    (hf : (step p c).2 = .error f) : f.Allowed p c := by
  obtain ⟨c', hs⟩ : ∃ c', step p c = (c', .error f) := ⟨_, Prod.ext rfl hf⟩
  cases breaks_of_step hs with
  | unnamed hu hk hsrc =>
    obtain ⟨l, hl, -⟩ := hp.endLoop hu hk
    rw [hsrc] at hl
    cases hl
  | unread hu hk hm hg =>
    obtain ⟨q, hq, hnone, rfl⟩ := gather_raises_of_typed ht f hg
    refine ⟨?_, ?_, ?_⟩
    · intro pc n h
      cases h
      exact ⟨hnone, hp.of_mem_valueOperands hu hq⟩
    · intro pc m h
      cases h
      rfl
    · intro pc k h
      cases h
  | store hu hk hg hw =>
    rcases storeWrites_raises _ _ f hw with h | ⟨hne, -⟩
    · exact Fault.allowed_of_isData h
    · have htakes := takes_of_gather hp hu hg
      simp [Program.takes, hk] at htakes
      exact absurd htakes hne
  | write hu hk hg hw hm =>
    rcases perform_storeWrites_raises hw c.memory f (by rw [hm]) with h | ⟨v, -, -, a, rfl⟩
    · exact Fault.allowed_of_isData h
    · exact Fault.allowed_of_invalidOperands
  | untyped hu hk hg hd =>
    obtain ⟨t, ht⟩ := hp.typed hu hk
    rw [hd] at ht
    cases ht
  | produce hu hk hd hg hprod => exact (refuses_of_produce hprod).allowed hp hu hg
  | enter hu hk hd hg hnone he =>
    have htakes := takes_of_gather hp hu hg
    simp [Program.takes, hk] at htakes
    exact (Loop.enter_raises f he).allowed (by omega)
  | advance hu hk hd hg hsome ha =>
    have htakes := takes_of_gather hp hu hg
    simp [Program.takes, hk] at htakes
    exact (Loop.advance_raises f ha).allowed (by omega)
  | unrecorded hu hk hd hg hsome ha hr he => exact Fault.allowed_of_malformed rfl (by simp)
  | shapeless hu hk hd hg hsome hshape => exact Fault.allowed_of_malformed rfl (by simp)

/-- Where control is in a run of an accepted program, every instruction before
it that leaves values has its type on record, and has a value unless it is a
loop that has been left. So an operand that is missing is such a loop, no other
malformation is reported that the checks look for, and only a coordinate of
neither kind leaves no value. -/
theorem value_none_iff_exited {point : Point} {warp : Warp} {buffers : List Buffer}
    {launchValues : List Value} (hp : p.validate = .ok ())
    (h : Arrives p (.start point warp buffers launchValues) o c) :
    (∀ q u, q < c.pc → p.get? q = some u → u.kind.isVoid = false →
      (c.values.get? q = none ↔ Exited p (.start point warp buffers launchValues) q c) ∧
        c.types.get? q ≠ none) ∧
    (∀ f, (step p c).2 = .error f →
      (∀ pc n, f = .malformed pc (.operandValue n) →
        p.isLoopAt n = true ∧ Exited p (.start point warp buffers launchValues) n c) ∧
      (∀ pc m, m.isRuledOut = true → f ≠ .malformed pc m) ∧
      (∀ pc k, f = .noValue pc k → ∃ u, p.get? c.pc = some u ∧ u.IsNameless)) := by
  have hacc : p.Accepted := Program.accepted_of_validate hp
  have htyped : c.Typed := h.typed (Context.typed_start point warp buffers launchValues)
  obtain ⟨m, hm⟩ := h.passed hacc (passed_start point warp buffers launchValues)
  have hvalue : ∀ q u, q < c.pc → p.get? q = some u → u.kind.isVoid = false →
      (c.values.get? q = none ↔ Exited p (.start point warp buffers launchValues) q c) := by
    intro q u hq hu hv
    refine ⟨fun hnone => ?_, Exited.values⟩
    exact (hm.value q u (Nat.lt_of_lt_of_le hq hm.pc_le) hu hv).resolve_left (not_not_intro hnone)
  refine ⟨fun q u hq hu hv => ⟨hvalue q u hq hu hv, ?_⟩, fun f hf => ?_⟩
  · exact hm.type q u (Nat.lt_of_lt_of_le hq hm.pc_le) hu hv
  · have hallowed := htyped.allowed_step hacc hf
    refine ⟨?_, ?_, hallowed.noValue⟩
    · intro pc n hfn
      obtain ⟨hnone, hlt, u, hu, hv⟩ := hallowed.operand pc n hfn
      have hexit := (hvalue n u hlt hu hv).mp hnone
      exact ⟨hexit.isLoopAt, hexit⟩
    · rintro pc m hm rfl
      rw [hallowed.malformed pc m rfl] at hm
      cases hm

/-- Control has come past the loop of `twoRounds`, whose counter is gone. -/
theorem value_none_iff_exited_twoRounds :
    Exited .twoRounds (.start ⟨0, 0, 0⟩ ⟨⟨1, 1, 1⟩⟩ [] []) 2
      (run .twoRounds 7 (.start ⟨0, 0, 0⟩ ⟨⟨1, 1, 1⟩⟩ [] [])).1 := by
  have h := @arrives_of_unfinished .twoRounds (.start ⟨0, 0, 0⟩ ⟨⟨1, 1, 1⟩⟩ [] []) 6 (by decide)
  exact (((value_none_iff_exited (by decide) h).1 2 _ (by decide) rfl rfl).1).mp rfl

end Lockstep
