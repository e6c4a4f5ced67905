import Lockstep.Proofs.Step.Blame
import Lockstep.Proofs.Step.Cases

/-!
# How a step can fail

`Breaks` is the counterpart of `Fires`: it lists the places where a step gives
up, with the context and the fault it leaves.
-/

namespace Lockstep

/-- A step from a context that fails. -/
inductive Breaks (p : Program) (c : Context) : Context → Fault → Prop where
  | unnamed {u : Uop} (hu : p.get? c.pc = some u) (hk : u.kind = .endLoop) (hs : u.src = []) :
      Breaks p c c.counted (.malformed c.pc .endLoopOperand)
  /-- an operand is not there -/
  | unread {u : Uop} {f : Fault} (hu : p.get? c.pc = some u) (hk : u.kind ≠ .endLoop)
      (hm : u.kind.isMarker = false) (hg : gather p u c = .error f) : Breaks p c c.counted f
  | store {u : Uop} {ops : List Operand} {f : Fault} (hu : p.get? c.pc = some u)
      (hk : u.kind = .store) (hg : gather p u c = .ok ops) (hw : storeWrites c.pc ops = .error f) :
      Breaks p c c.counted f
  /-- a write fails, and those before it stay done -/
  | write {u : Uop} {ops : List Operand} {ws : List Write} {m : Memory} {f : Fault}
      (hu : p.get? c.pc = some u) (hk : u.kind = .store) (hg : gather p u c = .ok ops)
      (hw : storeWrites c.pc ops = .ok ws) (hm : c.memory.perform ws = (m, .error f)) :
      Breaks p c { c.counted with memory := m } f
  | untyped {u : Uop} {ops : List Operand} (hu : p.get? c.pc = some u)
      (hk : u.kind.isVoid = false) (hg : gather p u c = .ok ops) (hd : u.dtype = none) :
      Breaks p c c.counted (.malformed c.pc (.missingType u.kind))
  | produce {u : Uop} {d : DType} {ops : List Operand} {f : Fault} (hu : p.get? c.pc = some u)
      (hk : u.kind.isProducer = true) (hd : u.dtype = some d) (hg : gather p u c = .ok ops)
      (hp : produce p u d (c.counted.declared d) ops = .error f) :
      Breaks p c (c.counted.declared d) f
  | enter {u : Uop} {d : DType} {ops : List Operand} {f : Fault} (hu : p.get? c.pc = some u)
      (hk : u.kind = .loop) (hd : u.dtype = some d) (hg : gather p u c = .ok ops)
      (hn : c.values.get? c.pc = none)
      (he : Loop.enter (c.counted.declared d) d ops = .error f) :
      Breaks p c (c.counted.declared d) f
  | advance {u : Uop} {d : DType} {ops : List Operand} {counter : Lanes} {f : Fault}
      (hu : p.get? c.pc = some u) (hk : u.kind = .loop) (hd : u.dtype = some d)
      (hg : gather p u c = .ok ops) (hn : c.values.get? c.pc = some (.scalar counter))
      (ha : Loop.advance c.pc counter ops = .error f) : Breaks p c (c.counted.declared d) f
  /-- a loop ends that was never closed -/
  | unrecorded {u : Uop} {d : DType} {ops : List Operand} {counter next : Lanes} {stop : Value}
      (hu : p.get? c.pc = some u) (hk : u.kind = .loop) (hd : u.dtype = some d)
      (hg : gather p u c = .ok ops) (hn : c.values.get? c.pc = some (.scalar counter))
      (ha : Loop.advance c.pc counter ops = .ok (next, stop))
      (hr : Loop.reached next stop = true) (he : c.loopEnds.get? c.pc = none) :
      Breaks p c { c.counted.declared d with values := c.values.erase c.pc }
        (.malformed c.pc .loopEnd)
  | shapeless {u : Uop} {d : DType} {ops : List Operand} {v : LaneValues}
      (hu : p.get? c.pc = some u) (hk : u.kind = .loop) (hd : u.dtype = some d)
      (hg : gather p u c = .ok ops) (hn : c.values.get? c.pc = some v)
      (hs : v.scalar? = none) :
      Breaks p c (c.counted.declared d) (.malformed c.pc .loopCounter)

variable {p : Program} {c c' : Context} {f : Fault}

theorem visit_breaks {u : Uop} {d : DType} {ops : List Operand} (hu : p.get? c.pc = some u)
    (hk : u.kind = .loop) (hd : u.dtype = some d) (hg : gather p u c = .ok ops)
    (h : Loop.visit (c.counted.declared d) d ops = (c', .error f)) : Breaks p c c' f := by
  unfold Loop.visit at h
  split at h
  · rename_i hn
    cases he : Loop.enter (c.counted.declared d) d ops with
    | ok c₁ => rw [he] at h; cases h
    | error f₁ =>
      rw [he] at h
      cases h
      exact .enter hu hk hd hg hn he
  · rename_i counter hn
    cases ha : Loop.advance (c.counted.declared d).pc counter ops with
    | error f₁ =>
      rw [ha] at h
      cases h
      exact .advance hu hk hd hg hn ha
    | ok r =>
      obtain ⟨next, stop⟩ := r
      simp only [ha] at h
      cases hr : Loop.reached next stop with
      | false => rw [if_neg (by simp [hr])] at h; cases h
      | true =>
        rw [if_pos hr] at h
        unfold Loop.leave at h
        cases he : (c.counted.declared d).loopEnds.get? (c.counted.declared d).pc with
        | some e => rw [he] at h; cases h
        | none =>
          rw [he] at h
          cases h
          exact .unrecorded hu hk hd hg hn ha hr he
  · rename_i v hv hn
    cases h
    refine .shapeless hu hk hd hg hn ?_
    cases v with
    | scalar lanes => exact absurd rfl (hv lanes)
    | vector es => rfl
    | buffer vs => rfl

theorem define_breaks {u : Uop} {ops : List Operand} (hu : p.get? c.pc = some u)
    (hv : u.kind.isVoid = false) (hg : gather p u c = .ok ops)
    (h : define p u c.counted ops = (c', .error f)) : Breaks p c c' f := by
  unfold define at h
  cases hd : u.dtype with
  | none =>
    simp only [hd] at h
    cases h
    exact .untyped hu hv hg hd
  | some d =>
    simp only [hd] at h
    split at h
    · rename_i hk
      exact visit_breaks hu hk hd hg h
    · rename_i hk
      have hprod : u.kind.isProducer = true := by simpa [Kind.isProducer, hv] using hk
      cases hp : produce p u d (c.counted.declared d) ops with
      | ok c₁ =>
        rw [show produce p u d { c.counted with types := c.counted.types.insert c.counted.pc d } ops
          = _ from hp] at h
        cases h
      | error f₁ =>
        rw [show produce p u d { c.counted with types := c.counted.types.insert c.counted.pc d } ops
          = _ from hp] at h
        cases h
        exact .produce hu hprod hd hg hp

theorem store_breaks {u : Uop} {ops : List Operand} (hu : p.get? c.pc = some u)
    (hk : u.kind = .store) (hg : gather p u c = .ok ops)
    (h : store c.counted ops = (c', .error f)) : Breaks p c c' f := by
  unfold store at h
  cases hw : storeWrites c.pc ops with
  | error f₁ =>
    simp only [Context.counted_pc, hw] at h
    cases h
    exact .store hu hk hg hw
  | ok ws =>
    obtain ⟨m, r, hm⟩ : ∃ m r, c.memory.perform ws = (m, r) := ⟨_, _, rfl⟩
    simp only [Context.counted_pc, hw, Context.counted_memory, hm] at h
    obtain ⟨rfl, h⟩ := Prod.mk.inj h
    cases r with
    | ok a => cases h
    | error f₁ =>
      cases h
      exact .write hu hk hg hw hm

/-- A step fails in no way that `Breaks` does not list. -/
theorem breaks_of_step (h : step p c = (c', .error f)) : Breaks p c c' f := by
  unfold step at h
  cases hu : p.get? c.pc with
  | none =>
    simp only [hu] at h
    cases h
  | some u =>
    simp only [hu] at h
    change execute p u c.counted = _ at h
    unfold execute at h
    split at h
    · rename_i hk
      unfold closeLoop at h
      cases hs : u.src with
      | nil =>
        simp only [hs] at h
        cases h
        exact .unnamed hu hk hs
      | cons l r => simp [hs] at h
    · cases h
    · cases h
    · cases h
    · rename_i h₁ h₂ h₃ h₄
      have hmarker : u.kind.isMarker = false := by
        cases hkind : u.kind <;> simp_all [Kind.isMarker]
      cases hg : gather p u c with
      | error f₁ =>
        rw [show gather p u c.counted = _ from hg] at h
        cases h
        exact .unread hu h₁ hmarker hg
      | ok ops =>
        rw [show gather p u c.counted = _ from hg] at h
        dsimp only at h
        split at h
        · rename_i hk
          exact store_breaks hu hk hg h
        · rename_i hk
          refine define_breaks hu ?_ hg h
          cases hkind : u.kind <;> simp_all [Kind.isVoid]

/-- An instruction whose operands are not all there fails for want of one. -/
theorem step_of_gather_error {u : Uop} (hu : p.get? c.pc = some u) (hk : u.kind ≠ .endLoop)
    (hm : u.kind.isMarker = false) (hg : gather p u c = .error f) :
    step p c = (c.counted, .error f) := by
  unfold step
  rw [hu]
  change execute p u c.counted = _
  unfold execute
  rw [show gather p u c.counted = _ from hg]
  cases hkind : u.kind <;> simp_all [Kind.isMarker]

/-- An instruction with operands that does not fail has gathered them. -/
theorem gathered_of_step {u : Uop} {k : Control} (hu : p.get? c.pc = some u)
    (hk : u.kind ≠ .endLoop) (hm : u.kind.isMarker = false) (h : step p c = (c', .ok k)) :
    ∃ ops, gather p u c = .ok ops ∧
      (if u.kind = .store then store c.counted ops else define p u c.counted ops) = (c', .ok k) := by
  cases hg : gather p u c with
  | error f =>
    rw [step_of_gather_error hu hk hm hg] at h
    cases h
  | ok ops => exact ⟨ops, rfl, (step_of_gather hu hk hm hg).symm.trans h⟩

end Lockstep
