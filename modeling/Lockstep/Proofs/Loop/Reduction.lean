import Lockstep.Proofs.Loop.Counter
import Lockstep.Proofs.Run.OneLane
import Lockstep.Proofs.Run.Presence
import Mathlib.Data.Int.Range

/-!
# Reductions

Programs with one loop, whose body computes a value from an accumulator and the
counter, and whose phi carries this value back: their shape, what one pass of the
body means for a single lane, and how a run comes to the loop.
-/

namespace Lockstep

/-- Where the parts of a reduction stand: instructions without loops, the
accumulator among them; the loop; the body; the phi; the end of the loop. -/
structure Reduction where
  acc : Nat
  loop : Nat
  /-- the type in which the loop counts -/
  type : IntType
  /-- instructions in the body, the phi not counted -/
  size : Nat
  /-- what the phi carries into the accumulator -/
  next : Nat

namespace Reduction

def phi (r : Reduction) : Nat := r.loop + 1 + r.size

/-- The end of the loop. -/
def last (r : Reduction) : Nat := r.phi + 1

/-- The program is such a reduction. -/
structure In (r : Reduction) (p : Program) : Prop where
  length : p.length = r.last + 1
  straight : ∀ q < r.loop, ∀ u ∈ p.get? q, u.kind ≠ .loop ∧ u.kind ≠ .endLoop
  acc_lt : r.acc < r.loop
  acc : ∃ u, p.get? r.acc = some u ∧ u.kind = .defineAcc
  loop : ∃ u d a b, p.get? r.loop = some u ∧ u.kind = .loop ∧ u.dtype = some d ∧
    d.element = .int r.type ∧ p.valueOperands u = [a, b] ∧ a ≠ r.acc ∧ b ≠ r.acc
  body : ∀ i < r.size, ∀ u ∈ p.get? (r.loop + 1 + i), u.ComputesByLane
  phi : ∃ u, p.get? r.phi = some u ∧ u.kind = .phi ∧ p.valueOperands u = [r.acc, r.next]
  last : ∃ u, p.get? r.last = some u ∧ u.kind = .endLoop ∧ u.src = [r.loop]

/-- What a lane knows when a pass of the body begins: the entries from before the
loop, but for the accumulator, and the counter. -/
def table (r : Reduction) (c : Context) (j : Nat) (a : LaneValue) (i : Int) : LaneTable :=
  Function.update (Function.update (c.lane? j) r.acc (some a)) r.loop
    (some (.scalar (Loop.counter r.type i)))

/-- The first so many instructions of the body on one lane. -/
def body? (r : Reduction) (p : Program) (m : Memory) (t : LaneTable) (k : Nat) :
    Option LaneTable :=
  (List.range' (r.loop + 1) k).foldlM (p.onLane? m) t

/-- What one pass of the body makes, on lane `j`, of a value of the accumulator and
a counter. All else it reads is as the loop was entered. -/
def pass? (r : Reduction) (p : Program) (c : Context) (j : Nat) (a : LaneValue) (i : Int) :
    Option LaneValue := do
  let t ← r.body? p c.memory (r.table c j a i) r.size
  t r.next

/-- After the loop, which was entered in the first context, the accumulator and the
phi hold on every lane the fold of the body over the counters from `s` to `t - 1`,
and no other entry from before the loop has changed. -/
structure Folds (r : Reduction) (p : Program) (s t : Int) (c e : Context) : Prop where
  lanes : ∀ j < c.warp.laneCount, ∃ a b, c.lane? j r.acc = some a ∧
    (Int.range s t).foldlM (r.pass? p c j) a = some b ∧
    e.lane? j r.acc = some b ∧ e.lane? j r.phi = some b
  kept : ∀ q < r.loop, q ≠ r.acc → e.values.get? q = c.values.get? q

variable {r : Reduction} {p : Program} {s t : Int} {c x y : Context} {k : Nat}

theorem body?_succ (m : Memory) (t : LaneTable) (k : Nat) :
    r.body? p m t (k + 1) =
      (r.body? p m t k).bind fun t' => p.onLane? m t' (r.loop + 1 + k) := by
  rw [body?, List.range'_1_concat, List.foldlM_append]
  refine congrArg _ (funext fun t' => ?_)
  exact List.foldlM_cons.trans (bind_pure _)

theorem range_succ (s : Int) (k : Nat) :
    Int.range s (s + (k + 1 : Nat)) = Int.range s (s + k) ++ [s + k] := by
  simp [Int.range, List.range_succ]

namespace In

/-! ## The instructions of a reduction -/

theorem isLoopAt_of_lt (hr : r.In p) {q : Nat} (hq : q < r.loop) : p.isLoopAt q = false := by
  by_contra hloop
  obtain ⟨u, hu, hk⟩ := Program.isLoopAt_iff.mp (Bool.eq_true_of_not_eq_false hloop)
  exact (hr.straight q hq u hu).1 hk

theorem eq_of_loop_lt (hr : r.In p) {q : Nat} (hlo : r.loop < q) (hhi : q < p.length) :
    (∃ i < r.size, q = r.loop + 1 + i) ∨ q = r.phi ∨ q = r.last := by
  have hlen := hr.length
  by_cases hq : q < r.phi
  · refine .inl ⟨q - (r.loop + 1), ?_, ?_⟩
    · rw [Reduction.phi] at hq
      omega
    · omega
  · rw [Reduction.last] at hlen ⊢
    omega

/-- No phi has a loop for its accumulator. -/
theorem phisSpareLoops (hr : r.In p) (hp : p.Accepted) : p.PhisSpareLoops := by
  intro pc u a hu hk ha
  have hlt : a < pc := (hp.of_mem_valueOperands hu (List.mem_of_mem_head? ha)).1
  rcases Nat.lt_trichotomy pc r.loop with hpc | rfl | hpc
  · exact hr.isLoopAt_of_lt (Nat.lt_trans hlt hpc)
  · exact hr.isLoopAt_of_lt hlt
  · rcases hr.eq_of_loop_lt hpc (Program.get?_lt_length hu) with ⟨i, hi, rfl⟩ | rfl | rfl
    · have hbody := hr.body i hi u hu
      simp [Uop.ComputesByLane, hk] at hbody
    · obtain ⟨v, hv, -, hargs⟩ := hr.phi
      obtain rfl : u = v := Option.some.inj (hu.symm.trans hv)
      rw [hargs] at ha
      obtain rfl : r.acc = a := Option.some.inj ha
      exact hr.isLoopAt_of_lt hr.acc_lt
    · obtain ⟨v, hv, hkind, -⟩ := hr.last
      obtain rfl : u = v := Option.some.inj (hu.symm.trans hv)
      rw [hk] at hkind
      cases hkind

/-! ## The instructions before the loop -/

/-- Control has gone straight to a position at or before the loop. -/
structure Before (r : Reduction) (k : Nat) (x : Context) : Prop where
  pc : x.pc = k
  fresh : ∀ q, k ≤ q → x.values.get? q = none
  acc : r.acc < k → x.values.get? r.acc ≠ none

theorem before_step (hr : r.In p) (hp : p.Accepted) (hk : k < r.loop) (h : Before r k x)
    (hs : Steps p x y) : Before r (k + 1) y := by
  have hkind : ∀ u, p.get? x.pc = some u → u.kind ≠ .loop ∧ u.kind ≠ .endLoop := by
    intro u hu
    exact hr.straight x.pc (h.pc ▸ hk) u hu
  have hpc : y.pc = x.pc + 1 := by
    cases moves_of_steps (hr.phisSpareLoops hp) hs with
    | on hu hloop hend hpc hends hvalues => exact hpc
    | back he hpc hends hvalues =>
      obtain ⟨u, hu, hend, -⟩ := he
      exact absurd hend (hkind u hu).2
    | enter hu hloop => exact absurd hloop (hkind _ hu).1
    | again hu hloop => exact absurd hloop (hkind _ hu).1
    | leave hu hloop => exact absurd hloop (hkind _ hu).1
  refine ⟨by rw [hpc, h.pc], ?_, ?_⟩
  · intro q hq
    have hxpc := h.pc
    exact hs.values_none (by omega) (h.fresh q (by omega))
  · intro hacc
    by_cases hat : r.acc = x.pc
    · obtain ⟨u, hu, hdefine⟩ := hr.acc
      rw [hat] at hu
      obtain ⟨d, ops, y', -, -, hm, rfl⟩ := hs.makes hu (by rw [hdefine]; rfl)
      rw [hat, Context.follow_values]
      exact Makes.values_own (c := x.counted.declared d) hm
    · have hxpc := h.pc
      exact hs.values_mono (.inl hat) (h.acc (by omega))

theorem before_start (r : Reduction) (point : Point) (warp : Warp) (buffers : List Buffer)
    (launchValues : List Value) : Before r 0 (.start point warp buffers launchValues) :=
  ⟨rfl, fun _ _ => rfl, fun h => absurd h (Nat.not_lt_zero _)⟩

/-- A run that is not cut short comes to the loop. -/
theorem before_run (hr : r.In p) (hp : p.Accepted) (h : Before r 0 x) (hk : k ≤ r.loop)
    (hend : (run p k x).2 = .unfinished) : Before r k (run p k x).1 := by
  induction k with
  | zero => exact h
  | succ k ih =>
    obtain ⟨hend', hs⟩ := steps_of_unfinished hend
    exact hr.before_step hp hk (ih (Nat.le_of_succ_le hk) hend') hs

end In

end Reduction

end Lockstep
