import Lockstep.Proofs.Loop.Counter
import Lockstep.Proofs.Run.Lanes
import Lockstep.Proofs.Run.Within

/-!
# Visits of an integer loop

What it takes for a loop to count from one integer to another while the rest of
the program runs, and what a visit of it then finds: its operands are there, and
the warp has lanes to count on.
-/

namespace Lockstep

/-- The integer on the first lane of a value operand of the instruction at a
position. -/
def Context.operandInt? (c : Context) (p : Program) (pc i : Nat) : Option Int := do
  let u ← p.get? pc
  let q ← (p.valueOperands u)[i]?
  let v ← c.values.get? q
  let lanes ← v.scalar?
  let x ← lanes.head?
  x.toInt?

/-- A run is about to enter an integer loop from `s` to `t`. -/
structure CountedLoop (p : Program) (l e : Nat) (T : IntType) (s t : Int) (c : Context) : Prop where
  loop : ∃ u, p.get? l = some u ∧ u.kind = .loop ∧ u.dtype = some (.scalar (.int T))
  ends : p.EndsLoop e l
  pc : c.pc = l
  fresh : c.values.get? l = none
  start : c.operandInt? p l 0 = some s
  inType : T.contains s = true
  lt : s < t
  inWidest : T.widest.contains t = true
  /-- the end bound is the same at every visit -/
  stop : ∀ n x, Within p l e c n x → x.pc = l → x.operandInt? p l 1 = some t
  /-- nothing in the body fails -/
  clean : ∀ n x, Within p l e c n x → l < x.pc → ¬ Fails p x

/-- A run is about to enter an integer loop at `s`, and the end bound stays `t`, which may be
anywhere. -/
structure LoopEntry (p : Program) (l e : Nat) (T : IntType) (s t : Int) (c : Context) : Prop where
  loop : ∃ u, p.get? l = some u ∧ u.kind = .loop ∧ u.dtype = some (.scalar (.int T))
  ends : p.EndsLoop e l
  pc : c.pc = l
  fresh : c.values.get? l = none
  start : c.operandInt? p l 0 = some s
  inType : T.contains s = true
  /-- the end bound is the same at every visit -/
  stop : ∀ n x, Within p l e c n x → x.pc = l → x.operandInt? p l 1 = some t
  /-- nothing in the body fails -/
  clean : ∀ n x, Within p l e c n x → l < x.pc → ¬ Fails p x

section

variable {p : Program} {l e : Nat} {T : IntType} {s t : Int} {c x y : Context}

theorem CountedLoop.entry (h : CountedLoop p l e T s t c) : LoopEntry p l e T s t c :=
  ⟨h.loop, h.ends, h.pc, h.fresh, h.start, h.inType, h.stop, h.clean⟩

theorem operandInt?_eq_some {u : Uop} {pc i : Nat} {j : Int} (hu : p.get? pc = some u)
    (h : c.operandInt? p pc i = some j) :
    ∃ q v r, (p.valueOperands u)[i]? = some q ∧ c.values.get? q = some (.scalar (v :: r)) ∧
      v.toInt? = some j := by
  unfold Context.operandInt? at h
  obtain ⟨u', hu', h⟩ := Option.bind_eq_some_iff.mp h
  obtain rfl : u = u' := Option.some.inj (hu.symm.trans hu')
  obtain ⟨q, hq, h⟩ := Option.bind_eq_some_iff.mp h
  obtain ⟨v, hv, h⟩ := Option.bind_eq_some_iff.mp h
  obtain ⟨lanes, hlanes, h⟩ := Option.bind_eq_some_iff.mp h
  obtain ⟨y, hy, h⟩ := Option.bind_eq_some_iff.mp h
  cases v with
  | scalar lanes' =>
    cases hlanes
    obtain ⟨r, rfl⟩ := List.head?_eq_some_iff.mp hy
    exact ⟨q, y, r, hq, hv, h⟩
  | vector es => cases hlanes
  | buffer vs => cases hlanes

/-- The bound of a loop on the first lane, once the operands are gathered. -/
theorem firstLane_of_gather {u : Uop} {ops : List Operand} {pc i q : Nat} {v : Value} {r : Lanes}
    (hg : gather p u c = .ok ops) (hq : (p.valueOperands u)[i]? = some q)
    (hv : c.values.get? q = some (.scalar (v :: r))) : Operand.firstLane pc ops i = .ok v := by
  have hall := mapM_eq_ok.mp hg
  obtain ⟨hi, hqi⟩ := List.getElem?_eq_some_iff.mp hq
  have hi' : i < ops.length := hall.length_eq ▸ hi
  have hop := hall.get hi hi'
  rw [List.get_eq_getElem, List.get_eq_getElem, hqi] at hop
  have hvalues := (operand_eq_ok.mp hop).1
  rw [hv] at hvalues
  unfold Operand.firstLane Operand.require
  rw [List.getElem?_eq_getElem hi']
  simp only [bind, Except.bind]
  rw [← Option.some.inj hvalues]
  rfl

/-- At every visit the operands of the loop are there. -/
theorem LoopEntry.gather (hp : p.Accepted) (h : LoopEntry p l e T s t c) (ht : c.Typed)
    {u : Uop} (hu : p.get? l = some u) (hk : u.kind = .loop) {n : Nat}
    (hx : Within p l e c n x) (hpc : x.pc = l) : ∃ ops, gather p u x = .ok ops := by
  obtain ⟨a, v, r, ha, hv, -⟩ := operandInt?_eq_some hu h.start
  obtain ⟨b, v', r', hb, hv', -⟩ := operandInt?_eq_some hu (h.stop n x hx hpc)
  have hlen : (p.valueOperands u).length = 2 := by
    simpa [Program.takes, hk] using hp.arity hu
  have hbefore : a < l :=
    hp.src_lt hu (Program.mem_valueOperands.mp (List.mem_of_getElem? ha)).1
  refine gather_of_present (hx.typed ht) ?_
  intro q hq
  obtain ⟨i, hi, hqi⟩ := List.mem_iff_getElem.mp hq
  have hcases : i = 0 ∨ i = 1 := by omega
  rcases hcases with rfl | rfl
  · obtain rfl : a = q := by
      rw [List.getElem?_eq_getElem hi] at ha
      exact (Option.some.inj ha).symm.trans hqi
    exact hx.values_mono h.pc.ge hbefore (by rw [hv]; simp)
  · obtain rfl : b = q := by
      rw [List.getElem?_eq_getElem hi] at hb
      exact (Option.some.inj hb).symm.trans hqi
    rw [hv']
    simp

/-- A warp with a bound on its first lane has lanes. -/
theorem laneCount_pos_of_operandInt? (hlanes : c.Lanewise) {u : Uop} {pc i : Nat} {j : Int}
    (hu : p.get? pc = some u) (h : c.operandInt? p pc i = some j) : 0 < c.warp.laneCount := by
  obtain ⟨q, v, r, -, hv, -⟩ := operandInt?_eq_some hu h
  have hlen : (v :: r).length = c.warp.laneCount := hlanes q _ hv
  rw [← hlen]
  exact Nat.succ_pos _

theorem LoopEntry.laneCount_pos (h : LoopEntry p l e T s t c) (hlanes : c.Lanewise) :
    0 < c.warp.laneCount := by
  obtain ⟨u, hu, -⟩ := h.loop
  exact laneCount_pos_of_operandInt? hlanes hu h.start

theorem reached_splat {w : Warp} {n : Int} {stop : Value} (hpos : 0 < w.laneCount)
    (hstop : stop.toInt? = some t) :
    Loop.reached (w.splat (Loop.counter T n)) stop = (n == t) := by
  obtain ⟨k, hk⟩ := Nat.exists_eq_succ_of_ne_zero hpos.ne'
  rw [Warp.splat, hk, List.replicate_succ]
  exact Value.numericEq_of_toInt? (Loop.toInt?_counter T n) hstop

end

end Lockstep
