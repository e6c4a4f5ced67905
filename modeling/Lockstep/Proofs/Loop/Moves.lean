import Lockstep.Proofs.Loop.Shape
import Lockstep.Proofs.Run.Reach

/-!
# What an instruction does to the loops

A coarser view of a step, for programs whose phis spare the loops: where control
goes, which end is recorded and which counter changes.
-/

namespace Lockstep

/-- What the instruction between two contexts does to the loops. -/
inductive Moves (p : Program) (c d : Context) : Prop where
  /-- an instruction that is neither a loop nor the end of one -/
  | on {u : Uop} (hu : p.get? c.pc = some u) (hk : u.kind ≠ .loop) (hk' : u.kind ≠ .endLoop)
      (hpc : d.pc = c.pc + 1) (hends : d.loopEnds = c.loopEnds)
      (hvalues : ∀ q, p.isLoopAt q = true → d.values.get? q = c.values.get? q)
  | back {l : Nat} (he : p.EndsLoop c.pc l) (hpc : d.pc = l)
      (hends : d.loopEnds = c.loopEnds.insert l c.pc) (hvalues : d.values = c.values)
  | enter {u : Uop} {t : DType} {ops : List Operand} {v w : Value} (hu : p.get? c.pc = some u)
      (hk : u.kind = .loop) (ht : u.dtype = some t) (hg : gather p u c = .ok ops)
      (hn : c.values.get? c.pc = none) (hv : Operand.firstLane c.pc ops 0 = .ok v)
      (hw : v.convert t.element = .ok w) (hpc : d.pc = c.pc + 1) (hends : d.loopEnds = c.loopEnds)
      (hvalues : d.values = c.values.insert c.pc (.scalar (c.warp.splat w)))
  | again {u : Uop} {ops : List Operand} {counter next : Lanes} {stop : Value}
      (hu : p.get? c.pc = some u) (hk : u.kind = .loop) (hg : gather p u c = .ok ops)
      (hn : c.values.get? c.pc = some (.scalar counter))
      (hi : counter.mapM Loop.increment = .ok next) (hv : Operand.firstLane c.pc ops 1 = .ok stop)
      (hr : Loop.reached next stop = false) (hpc : d.pc = c.pc + 1)
      (hends : d.loopEnds = c.loopEnds) (hvalues : d.values = c.values.insert c.pc (.scalar next))
  | leave {u : Uop} {ops : List Operand} {counter next : Lanes} {stop : Value} {e : Nat}
      (hu : p.get? c.pc = some u) (hk : u.kind = .loop) (hg : gather p u c = .ok ops)
      (hn : c.values.get? c.pc = some (.scalar counter))
      (hi : counter.mapM Loop.increment = .ok next) (hv : Operand.firstLane c.pc ops 1 = .ok stop)
      (hr : Loop.reached next stop = true) (he : c.loopEnds.get? c.pc = some e)
      (hpc : d.pc = e + 1) (hends : d.loopEnds = c.loopEnds)
      (hvalues : d.values = c.values.erase c.pc)

variable {p : Program} {c d : Context}

/-- A producing instruction leaves every loop its counter. -/
theorem Makes.values_loop {u : Uop} {t : DType} {ops : List Operand} (hphi : p.PhisSpareLoops)
    (hu : p.get? c.pc = some u) (hk : u.kind.isProducer = true)
    (hm : Makes p u t (c.counted.declared t) ops d) {q : Nat} (hq : p.isLoopAt q = true) :
    d.values.get? q = c.values.get? q := by
  refine hm.values_eq ?_
  rintro (rfl | ⟨hkind, ha⟩)
  · simp [Kind.isProducer, Program.kind_of_isLoopAt hq hu] at hk
  · rw [hphi _ _ _ hu hkind ha] at hq
    cases hq

theorem moves_of_steps (hphi : p.PhisSpareLoops) (h : Steps p c d) : Moves p c d := by
  obtain ⟨c', k, hs, hne, rfl⟩ := h
  cases fires_of_step hs with
  | halt hu => exact absurd rfl hne
  | close hu hk hsrc => exact .back (Program.endsLoop_of_close hu hk hsrc) rfl rfl rfl
  | @mark u hu hk =>
    refine .on hu ?_ ?_ rfl rfl fun q hq => rfl
    · rintro hloop
      simp [Kind.isMarker, hloop] at hk
    · rintro hend
      simp [Kind.isMarker, hend] at hk
  | store hu hk hg hw hm =>
    exact .on hu (by simp [hk]) (by simp [hk]) rfl rfl fun q hq => rfl
  | produce hu hk hd hg hp =>
    have hm := makes_of_produce hk hp
    refine .on hu ?_ ?_ (congrArg (· + 1) hm.pc_eq) hm.loopEnds_eq fun q hq =>
      hm.values_loop hphi hu hk hq
    · rintro hloop
      simp [Kind.isProducer, hloop] at hk
    · rintro hend
      simp [Kind.isProducer, Kind.isVoid, hend] at hk
  | enter hu hk hd hg hn hv hw => exact .enter hu hk hd hg hn hv hw rfl rfl rfl
  | again hu hk hd hg hn hi hv hr => exact .again hu hk hg hn hi hv hr rfl rfl rfl
  | leave hu hk hd hg hn hi hv hr he => exact .leave hu hk hg hn hi hv hr he rfl rfl rfl

/-- Only a visit of the loop itself changes its counter. -/
theorem Moves.values_loop (h : Moves p c d) {q : Nat} (hq : p.isLoopAt q = true)
    (hne : q ≠ c.pc) : d.values.get? q = c.values.get? q := by
  cases h with
  | on hu hk hk' hpc hends hvalues => exact hvalues q hq
  | back he hpc hends hvalues => rw [hvalues]
  | enter hu hk ht hg hn hv hw hpc hends hvalues =>
    rw [hvalues, Table.get?_insert_of_ne _ hne]
  | again hu hk hg hn hi hv hr hpc hends hvalues =>
    rw [hvalues, Table.get?_insert_of_ne _ hne]
  | leave hu hk hg hn hi hv hr he hpc hends hvalues =>
    rw [hvalues, Table.get?_erase_of_ne _ hne]

end Lockstep
