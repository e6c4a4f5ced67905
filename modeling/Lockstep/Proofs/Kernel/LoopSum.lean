import Lockstep.Proofs.Kernel.LastStore
import Lockstep.Proofs.Launch.Accounting
import Lockstep.Proofs.Loop.Visit
import Lockstep.Proofs.Step.Integers
import Lockstep.Proofs.Step.Stretch
import Mathlib.Algebra.BigOperators.Group.Finset.Basic
import Mathlib.Tactic.FinCases

/-!
# Summing a buffer in a loop

A program that adds up so many elements of a buffer in a loop over a launch value and
stores their sum. The partial sums may leave the declared type and are held in the widest
type then; only the sum that is stored has to fit.
-/

namespace Lockstep

namespace Program

/-- Puts the sum of the first `n` elements of `in` into `out[0]`, with `n` as a launch
value. -/
def loopSum : Program where
  uops :=
    [⟨.defineGlobal, some int32, [], .name "out"⟩,
     ⟨.defineGlobal, some int32, [], .name "in"⟩,
     ⟨.defineVar, some int32, [], .name "n"⟩,
     ⟨.defineAcc, some int32, [], .literal (.int 0)⟩,
     ⟨.const, some int32, [], .literal (.int 0)⟩,
     ⟨.loop, some int32, [4, 2], .none⟩,
     ⟨.load, some int32, [1, 5], .none⟩,
     ⟨.alu, some int32, [3, 6], .operation .add⟩,
     ⟨.phi, some int32, [3, 7], .none⟩,
     ⟨.endLoop, none, [5], .none⟩,
     ⟨.store, none, [0, 4, 8], .none⟩]

theorem validate_loopSum : loopSum.validate = .ok () := by decide

end Program

namespace LoopSum

/-- The sum of the first elements of a buffer. -/
def sum (b : Buffer) (n : Nat) : Int := ∑ i ∈ Finset.range n, b.intAt .int32 i

@[simp] theorem sum_zero (b : Buffer) : sum b 0 = 0 := Finset.sum_range_zero _

theorem sum_succ (b : Buffer) (n : Nat) : sum b (n + 1) = sum b n + b.intAt .int32 n :=
  Finset.sum_range_succ _ n

theorem sum_bounds (b : Buffer) (n : Nat) :
    -2147483648 * (n : Int) ≤ sum b n ∧ sum b n ≤ 2147483648 * n := by
  induction n with
  | zero => simp
  | succ n ih =>
    have hx := contains_int32_iff.mp (b.contains_intAt .int32 n)
    rw [sum_succ]
    omega

/-- No partial sum leaves the widest type. -/
theorem contains_sum (b : Buffer) {n : Nat} (hn : n < 2 ^ 31) :
    IntType.int32.widest.contains (sum b n) = true := by
  have h := sum_bounds b n
  rw [contains_widest_int32_iff]
  omega

/-! ## The body -/

section

variable {w : Warp} {out inp : Buffer} {rest : List Buffer} {n k : Nat} {acc : Lanes} {total : Int}
  {c d : Context}

/-- What the instructions before the loop have left, with the lanes of the accumulator. -/
def head (w : Warp) (n : Nat) (acc : Lanes) : List Operand :=
  [⟨.buffer (w.splat ⟨.global 0, .int .int32⟩), int32⟩,
   ⟨.buffer (w.splat ⟨.global 1, .int .int32⟩), int32⟩,
   ⟨.scalar (w.splat (.int .int32 n)), int32⟩,
   ⟨.scalar acc, int32⟩,
   ⟨.scalar (w.splat (.int .int32 0)), int32⟩]

/-- The lanes of the counter in round `k`. -/
def counter (w : Warp) (k : Nat) : Lanes := w.splat (Loop.counter .int32 k)

/-- All lanes hold the same integer. -/
abbrev Holds (w : Warp) (i : Int) (lanes : Lanes) : Prop :=
  IntType.int32.HoldLanes w.laneCount (fun _ => i) lanes

/-- In front of the body in round `k`, with the sum of the rounds before. -/
structure Enters (w : Warp) (bs : List Buffer) (n k : Nat) (total : Int) (c : Context) : Prop where
  warp : c.warp = w
  globals : c.memory.globals = bs
  straight : ∃ acc, Holds w total acc ∧
    Stretch c (head w n acc ++ [⟨.scalar (counter w k), int32⟩]) 2 1 c

/-- Back at the loop after round `k`, with the sum of the rounds so far. -/
structure Returns (w : Warp) (bs : List Buffer) (n k : Nat) (total : Int) (c : Context) : Prop where
  warp : c.warp = w
  globals : c.memory.globals = bs
  counter : c.values.get? 5 = some (.scalar (counter w k))
  loopEnd : c.loopEnds.get? 5 = some 9
  straight : ∃ acc, Holds w total acc ∧ Stretch c (head w n acc) 2 1 c ∧
    c.Has 8 ⟨.scalar acc, int32⟩

/-- In front of the store, with the whole sum. -/
structure Leaves (w : Warp) (bs : List Buffer) (total : Int) (c : Context) : Prop where
  pc : c.pc = 10
  globals : c.memory.globals = bs
  target : c.Has 0 ⟨.buffer (w.splat ⟨.global 0, .int .int32⟩), int32⟩
  offset : c.Has 4 ⟨.scalar (w.splat (.int .int32 0)), int32⟩
  sum : ∃ acc, Holds w total acc ∧ c.Has 8 ⟨.scalar acc, int32⟩

theorem counter_eq (hk : k < 2 ^ 31) : counter w k = w.splat (.int .int32 k) := by
  rw [counter, Loop.counter, if_pos (contains_int32_of_lt hk)]

/-- One round: an element is loaded and added to the accumulator. -/
theorem round (h : Enters w (out :: inp :: rest) n k (sum inp k) c) (hk : k < n)
    (hn : n < 2 ^ 31) (hin : n ≤ inp.lengthAs (.int .int32)) :
    ∃ d, Leads .loopSum 4 c d ∧ Returns w (out :: inp :: rest) n k (sum inp (k + 1)) d := by
  obtain ⟨rfl, hglobals, acc, hacc, h₀⟩ := h
  have hoffset : IntType.int32.HoldLanes c.warp.laneCount (fun _ => (k : Nat)) (counter c.warp k) := by
    rw [counter_eq (Nat.lt_trans hk hn)]
    exact .replicate (IntType.holds_of_contains (contains_int32_of_lt (Nat.lt_trans hk hn))) _
  have hbuffer : c.memory.buffer? (.global 1) = some inp := by
    rw [Memory.buffer?, hglobals]
    rfl
  obtain ⟨loaded, hload, hloaded⟩ := load_of_holds hbuffer hoffset fun _ _ => Nat.lt_of_lt_of_le hk hin
  obtain ⟨c₁, hs₁, h₁⟩ := h₀.load (p := .loopSum) rfl (.cons rfl (.cons rfl .nil)) hload
  obtain ⟨added, halu, hadded⟩ := alu_of_holds (show AluOp.add ≠ .select by simp) hacc hloaded
    (r := fun _ => sum inp (k + 1)) (fun T j => by rw [sum_succ]; rfl)
    (fun _ _ => contains_sum inp (Nat.lt_of_le_of_lt hk hn))
  obtain ⟨c₂, hs₂, h₂⟩ := h₁.alu (p := .loopSum) rfl (.cons rfl (.cons rfl .nil)) halu
  obtain ⟨c₃, hs₃, h₃⟩ := h₂.phi (p := .loopSum) rfl rfl rfl rfl
  obtain ⟨d, hs₄, h₄, hmemory, hwarp, hend, hhas⟩ := h₃.close (p := .loopSum) rfl (by simp [head])
  refine ⟨d, .step hs₁ (.step hs₂ (.step hs₃ (.one hs₄))),
    ⟨hwarp.trans h₃.warp, ?_, (hhas 5 _ rfl).value, hend, added, hadded, h₄, hhas 8 _ rfl⟩⟩
  rw [hmemory, h₃.globals, hglobals]

/-- What the loop finds of its bounds. -/
theorem firstLane_stop (hw : 1 ≤ w.laneCount) {o : Operand} :
    Operand.firstLane 5 [o, ⟨.scalar (w.splat (.int .int32 n)), int32⟩] 1 =
      .ok (.int .int32 n) := by
  obtain ⟨m, hm⟩ := Nat.exists_eq_succ_of_ne_zero (Nat.ne_of_gt hw)
  rw [Operand.firstLane_eq_ok]
  simp [LaneValues.scalar?, Warp.splat, hm, List.replicate_succ]

theorem next_counter (hk : k + 1 < 2 ^ 31) :
    (counter w k).mapM Loop.increment = .ok (counter w (k + 1)) := by
  refine mapM_replicate ?_ _
  have hmin : IntType.int32.min ≤ (k : Int) := by
    change (-2147483648 : Int) ≤ k
    omega
  have h := Loop.increment_counter hmin
    (IntType.contains_widest (t := .int32) (by exact_mod_cast contains_int32_of_lt hk))
  exact_mod_cast h

/-- The loop goes on to the next round. -/
theorem again (h : Returns w (out :: inp :: rest) n k total d) (hw : 1 ≤ w.laneCount)
    (hk : k + 1 < n) (hn : n < 2 ^ 31) :
    ∃ c, Steps .loopSum d c ∧ Enters w (out :: inp :: rest) n (k + 1) total c := by
  obtain ⟨rfl, hglobals, hcounter, -, acc, hacc, h₀, -⟩ := h
  have hreached : Loop.reached (counter d.warp (k + 1)) (.int .int32 n) = false := by
    rw [counter, reached_splat hw rfl]
    simp
    omega
  obtain ⟨c, hs, h₁⟩ := h₀.again (p := .loopSum) rfl (.cons rfl (.cons rfl .nil))
    hcounter (next_counter (Nat.lt_trans hk hn)) (firstLane_stop hw) hreached
  exact ⟨c, hs, h₁.warp, h₁.globals.trans hglobals, acc, hacc, h₁.rebase⟩

/-- The loop has come to its end bound. -/
theorem leave (h : Returns w (out :: inp :: rest) n k total d) (hw : 1 ≤ w.laneCount)
    (hk : k + 1 = n) (hn : n < 2 ^ 31) :
    ∃ c, Steps .loopSum d c ∧ Leaves w (out :: inp :: rest) total c := by
  obtain ⟨rfl, hglobals, hcounter, hend, acc, hacc, h₀, hphi⟩ := h
  have hreached : Loop.reached (counter d.warp (k + 1)) (.int .int32 n) = true := by
    rw [counter, reached_splat hw rfl]
    simp
    omega
  obtain ⟨c, hs, hpc, hmemory, hhas⟩ := h₀.leave (p := .loopSum) rfl
    (.cons rfl (.cons rfl .nil)) hcounter (next_counter (hk ▸ hn)) (firstLane_stop hw) hreached hend
  exact ⟨c, hs, hpc, hmemory ▸ hglobals, hhas 0 _ (by simp [head]) (h₀.has 0 _ rfl),
    hhas 4 _ (by simp [head]) (h₀.has 4 _ rfl), acc, hacc, hhas 8 _ (by simp [head]) hphi⟩

/-! ## The store -/

/-- The buffer with the sum in its first element. -/
def stored (w : Warp) (out : Buffer) (total : Int) : Buffer :=
  out.setInts .int32 ((List.range w.laneCount).map fun _ => (0, total))

/-- How the store ends, and in which buffers. -/
def outcome (w : Warp) (out : Buffer) (total : Int) : Buffer × Ending :=
  if IntType.int32.contains total then (stored w out total, .halted)
  else (out, .failed (Memory.misfit .int32 total))

theorem storesLast (h : Leaves w (out :: inp :: rest) total c) :
    StoresLast .loopSum .int32 out (inp :: rest) ((List.range w.laneCount).map fun _ => (0, total))
      c := by
  obtain ⟨hpc, hglobals, h₀, h₄, acc, hacc, h₈⟩ := h
  have hu : Program.loopSum.get? c.pc = some ⟨.store, none, [0, 4, 8], .none⟩ := by rw [hpc]; rfl
  have hgather : gather .loopSum ⟨.store, none, [0, 4, 8], .none⟩ c = .ok [_, _, _] :=
    mapM_eq_ok.mpr (.cons h₀.operand_eq (.cons h₄.operand_eq (.cons h₈.operand_eq .nil)))
  have hoffset : IntType.int32.HoldLanes w.laneCount (fun _ => (0 : Nat)) (w.splat (.int .int32 0)) :=
    .replicate (IntType.holds_of_contains (by decide)) _
  obtain ⟨ws, hws, hstores⟩ := storeWrites_of_holds (.global 0) c.pc int32 (.int .int32)
    hoffset hacc
  exact ⟨by rw [hpc]; rfl, hglobals, ws, hstores, fun m r hm => step_of_store hu hgather hws hm⟩

/-- The program ends with the store. -/
theorem store (h : Leaves w (out :: inp :: rest) total c) (hw : 1 ≤ w.laneCount)
    (hout : 1 ≤ out.lengthAs (.int .int32)) :
    ∃ e, e.memory.globals = (outcome w out total).1 :: inp :: rest ∧
      Ends .loopSum c 1 e (outcome w out total).2 := by
  have hin : ∀ e ∈ (List.range w.laneCount).map (fun _ => ((0, total) : Nat × Int)),
      e.1 < out.lengthAs (.int .int32) := by
    simp
    omega
  unfold outcome
  by_cases ht : IntType.int32.contains total = true
  · rw [if_pos ht]
    exact (storesLast h).ends_of_contains hin (by simp [ht])
  · rw [if_neg ht]
    -- every lane stores the sum, so the write of the first lane fails
    have hfirst : ((List.range w.laneCount).map fun _ => ((0, total) : Nat × Int))[0]? =
        some (0, total) := by
      rw [List.getElem?_map, List.getElem?_range hw]
      rfl
    exact (storesLast h).ends_of_not_contains hin hfirst (by simpa using ht) (by simp)

/-- From round `k` on the program ends as its store does with the whole sum. -/
theorem ends_of_enters (h : Enters w (out :: inp :: rest) n k (sum inp k) c) (hw : 1 ≤ w.laneCount)
    (hk : k < n) (hn : n < 2 ^ 31) (hin : n ≤ inp.lengthAs (.int .int32))
    (hout : 1 ≤ out.lengthAs (.int .int32)) :
    ∃ e, e.memory.globals = (outcome w out (sum inp n)).1 :: inp :: rest ∧
      Ends .loopSum c (5 * (n - k) + 1) e (outcome w out (sum inp n)).2 := by
  -- by induction on the rounds that are left after this one
  induction hleft : n - (k + 1) generalizing k c with
  | zero =>
    obtain ⟨d, hround, hd⟩ := round h hk hn hin
    obtain rfl : k + 1 = n := by omega
    obtain ⟨c', hs, hc'⟩ := leave hd hw rfl hn
    obtain ⟨e, he, hends⟩ := store hc' hw hout
    refine ⟨e, he, ?_⟩
    have hall := hround.ends (.go hs hends)
    rwa [show 5 * (k + 1 - k) + 1 = 1 + 1 + 4 by omega]
  | succ left ih =>
    obtain ⟨d, hround, hd⟩ := round h hk hn hin
    have hk' : k + 1 < n := by omega
    obtain ⟨c', hs, hc'⟩ := again hd hw hk' hn
    obtain ⟨e, he, hends⟩ := ih hc' hk' (by omega)
    refine ⟨e, he, ?_⟩
    have hall := hround.ends (.go hs hends)
    rwa [show 5 * (n - k) + 1 = 5 * (n - (k + 1)) + 1 + 1 + 4 by omega]

/-! ## The whole program -/

theorem firstLane_start (hw : 1 ≤ w.laneCount) {o : Operand} :
    Operand.firstLane 5 [⟨.scalar (w.splat (.int .int32 0)), int32⟩, o] 0 =
      .ok (.int .int32 0) := by
  obtain ⟨m, hm⟩ := Nat.exists_eq_succ_of_ne_zero (Nat.ne_of_gt hw)
  rw [Operand.firstLane_eq_ok]
  simp [LaneValues.scalar?, Warp.splat, hm, List.replicate_succ]

/-- The buffers, the launch value and the constants are defined and the loop is entered. -/
theorem enters_of_start {v : Value} (x : Point) (rest : List Buffer) (vs : List Value) (hw : 1 ≤ w.laneCount)
    (hv : v.toInt? = some (n : Int)) (hn : n < 2 ^ 31) (hin : inp.Spans (.int .int32) n)
    (hout : out.Spans (.int .int32) 1) :
    ∃ c, Leads .loopSum 6 (.start x w (out :: inp :: rest) (v :: vs)) c ∧
      Enters w (out :: inp :: rest) n 0 0 c := by
  have h₀ := Stretch.start x w (out :: inp :: rest) (v :: vs)
  obtain ⟨c₁, hs₁, h₁⟩ := h₀.bindsGlobal (p := .loopSum) rfl rfl hout.fits
  obtain ⟨c₂, hs₂, h₂⟩ := h₁.bindsGlobal (p := .loopSum) rfl rfl hin.fits
  obtain ⟨c₃, hs₃, h₃⟩ := h₂.bindsVar (p := .loopSum) rfl rfl
    (Value.convert_of_contains hv (contains_int32_of_lt hn))
  obtain ⟨c₄, hs₄, h₄⟩ := h₃.constant (p := .loopSum) (w := .int .int32 0) rfl (.inr rfl) rfl
  obtain ⟨c₅, hs₅, h₅⟩ := h₄.constant (p := .loopSum) (w := .int .int32 0) rfl (.inl rfl) rfl
  obtain ⟨c, hs, h⟩ := h₅.enter (p := .loopSum) (w := .int .int32 0) rfl
    (.cons rfl (.cons rfl .nil)) rfl (firstLane_start hw) rfl
  exact ⟨c, .step hs₁ (.step hs₂ (.step hs₃ (.step hs₄ (.step hs₅ (.one hs))))),
    ⟨h.warp, h.globals, w.splat (.int .int32 0),
      .replicate (IntType.holds_of_contains (by decide)) _, h.rebase⟩⟩

theorem ends_of_start {v : Value} (x : Point) (rest : List Buffer) (vs : List Value) (hw : 1 ≤ w.laneCount)
    (hv : v.toInt? = some (n : Int)) (hpos : 1 ≤ n) (hn : n < 2 ^ 31)
    (hin : inp.Spans (.int .int32) n) (hout : out.Spans (.int .int32) 1) :
    ∃ e, e.memory.globals = (outcome w out (sum inp n)).1 :: inp :: rest ∧
      Ends .loopSum (.start x w (out :: inp :: rest) (v :: vs)) (5 * n + 7) e
        (outcome w out (sum inp n)).2 := by
  obtain ⟨c, hstart, hc⟩ := enters_of_start x rest vs hw hv hn hin hout
  rw [← sum_zero inp] at hc
  obtain ⟨e, he, hends⟩ := ends_of_enters hc hw hpos hn hin.length hout.length
  exact ⟨e, he, hstart.ends hends⟩

theorem stored_zero (hw : 1 ≤ w.laneCount) (hout : 1 ≤ out.lengthAs (.int .int32))
    (ht : IntType.int32.contains total = true) :
    (stored w out total).readAs? (.int .int32) 0 = some (.int .int32 total) := by
  refine Buffer.readAs?_setInts (List.mem_map.mpr ⟨0, List.mem_range.mpr hw, rfl⟩) ?_ hout ht
  intro e he _
  obtain ⟨j, -, rfl⟩ := List.mem_map.mp he
  rfl

theorem stored_of_ne {i : Nat} (hi : i ≠ 0) :
    (stored w out total).readAs? (.int .int32) i = out.readAs? (.int .int32) i := by
  refine Buffer.readAs?_setInts_of_not_mem fun e he => ?_
  obtain ⟨j, -, rfl⟩ := List.mem_map.mp he
  exact hi.symm

end

end LoopSum

/-- Let the program be launched over one grid point and a warp with lanes, for the sum of
the first `n` elements of a buffer. If the sum fits, the launch succeeds, puts it into the
first element of the other buffer and changes nothing else, whatever the partial sums are.
If not, the launch fails to convert the sum and changes nothing. -/
theorem loopSum_launch {e : Engine} {l : Launch} {n limit : Nat} {v : Value} {vs : List Value}
    {out inp : Buffer} {rest : List Buffer} (hp : e.program = .loopSum)
    (hgrid : l.global = ⟨1, 1, 1⟩) (hwarp : 1 ≤ l.warp.volume) (hvals : l.launchValues = v :: vs)
    (hv : v.toInt? = some (n : Int)) (hpos : 1 ≤ n) (hn : n < 2 ^ 31)
    (hin : inp.Spans (.int .int32) n) (hout : out.Spans (.int .int32) 1)
    (hlimit : 5 * n + 7 < limit) :
    (IntType.int32.contains (∑ i ∈ Finset.range n, inp.intAt .int32 i) = true →
      ∃ out', e.launch limit l (out :: inp :: rest) =
          ({ e with
              status := .completed
              iterations := e.iterations + 1
              instructions := e.instructions + (5 * n + 7) }, out' :: inp :: rest, .halted) ∧
        out'.shape = out.shape ∧
        out'.readAs? (.int .int32) 0 =
          some (.int .int32 (∑ i ∈ Finset.range n, inp.intAt .int32 i)) ∧
        ∀ i, i ≠ 0 → out'.readAs? (.int .int32) i = out.readAs? (.int .int32) i) ∧
    (IntType.int32.contains (∑ i ∈ Finset.range n, inp.intAt .int32 i) = false →
      e.launch limit l (out :: inp :: rest) =
        ({ e with
            status := .error
            iterations := e.iterations + 1
            instructions := e.instructions + (5 * n + 7) }, out :: inp :: rest,
          .failed (.conversion (.stored (.int .int64 (∑ i ∈ Finset.range n, inp.intAt .int32 i))
            (.int .int32) (.overflow (.whole (∑ i ∈ Finset.range n, inp.intAt .int32 i))
              (.int .int32)))))) := by
  obtain ⟨d, hd, hends⟩ := LoopSum.ends_of_start (w := ⟨l.warp⟩) ⟨0, 0, 0⟩ rest vs hwarp hv hpos hn hin hout
  have hpoints : Grid.points l.global = [⟨0, 0, 0⟩] := by rw [hgrid]; rfl
  rw [← hvals, ← hp] at hends
  rw [show ∑ i ∈ Finset.range n, inp.intAt .int32 i = LoopSum.sum inp n from rfl]
  unfold LoopSum.outcome at hd hends
  constructor
  · intro ht
    rw [if_pos ht] at hd hends
    have hsweep : Sweep e.program l (Grid.points l.global) (out :: inp :: rest) [5 * n + 7]
        (LoopSum.stored ⟨l.warp⟩ out (LoopSum.sum inp n) :: inp :: rest) := by
      rw [hpoints, ← hd]
      exact .cons hends .nil
    refine ⟨LoopSum.stored ⟨l.warp⟩ out (LoopSum.sum inp n),
      (Engine.launch_of_sweep hsweep (by simpa using hlimit)).trans ?_,
      out.shape_setInts .int32 _, LoopSum.stored_zero (w := ⟨l.warp⟩) hwarp hout.length ht,
      fun i => LoopSum.stored_of_ne⟩
    simp [Engine.charged]
  · intro ht
    rw [if_neg (by simp [ht])] at hd hends
    have hbefore : Grid.points l.global = [] ++ ⟨0, 0, 0⟩ :: [] := hpoints
    rw [Engine.launch_of_fails hbefore .nil hends (by simpa using hlimit), hd]
    rfl

/-- The greatest integer, one and minus five: the sum of the first two leaves the type, that
of all three does not. -/
def LoopSum.detour : Buffer where
  format := .int .int32
  bytes := #[0xFF, 0xFF, 0xFF, 0x7F, 1, 0, 0, 0, 0xFB, 0xFF, 0xFF, 0xFF]

theorem loopSum_launch_detour :
    ∃ out', (Engine.mk .loopSum .ready 0 0).launch 23 ⟨⟨1, 1, 1⟩, ⟨2, 1, 1⟩, [.int .int8 3], false⟩
        [.zeros (.int .int32) 2, LoopSum.detour] =
        (⟨.loopSum, .completed, 1, 22⟩, [out', LoopSum.detour], .halted) ∧
      out'.readAs? (.int .int32) 0 = some (.int .int32 2147483643) ∧
      out'.readAs? (.int .int32) 1 = some (.int .int32 0) := by
  have hsum : ∑ i ∈ Finset.range 3, LoopSum.detour.intAt .int32 i = 2147483643 := by
    decide +kernel
  have h := @loopSum_launch (Engine.mk .loopSum .ready 0 0)
    ⟨⟨1, 1, 1⟩, ⟨2, 1, 1⟩, [.int .int8 3], false⟩ 3 23 (.int .int8 3) []
    (.zeros (.int .int32) 2) LoopSum.detour [] rfl rfl (by decide) rfl rfl (by decide) (by decide)
    ⟨by decide, by decide⟩ ⟨by decide, by decide⟩ (by decide)
  rw [hsum] at h
  obtain ⟨out', hlaunch, -, hzero, hrest⟩ := h.1 (by decide)
  exact ⟨out', hlaunch, hzero, (hrest 1 (by decide)).trans (by decide +kernel)⟩

end Lockstep
