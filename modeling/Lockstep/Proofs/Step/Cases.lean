import Lockstep.Proofs.Outcome
import Lockstep.Step

/-!
# What a step can do

A step that does not fail does one of eight things. `Fires` lists them with
everything that has to hold for each, so that no later proof unfolds `step`.
-/

namespace Lockstep

namespace Context

/-- The context with the current instruction counted. -/
def counted (c : Context) : Context := { c with instructions := c.instructions + 1 }

/-- The context with the declared type of the current instruction on record. -/
def declared (c : Context) (d : DType) : Context := { c with types := c.types.insert c.pc d }

@[simp] theorem counted_pc (c : Context) : c.counted.pc = c.pc := rfl
@[simp] theorem counted_warp (c : Context) : c.counted.warp = c.warp := rfl
@[simp] theorem counted_values (c : Context) : c.counted.values = c.values := rfl
@[simp] theorem counted_loopEnds (c : Context) : c.counted.loopEnds = c.loopEnds := rfl
@[simp] theorem counted_memory (c : Context) : c.counted.memory = c.memory := rfl

@[simp] theorem declared_pc (c : Context) (d : DType) : (c.declared d).pc = c.pc := rfl
@[simp] theorem declared_warp (c : Context) (d : DType) : (c.declared d).warp = c.warp := rfl
@[simp] theorem declared_values (c : Context) (d : DType) :
    (c.declared d).values = c.values := rfl
@[simp] theorem declared_loopEnds (c : Context) (d : DType) :
    (c.declared d).loopEnds = c.loopEnds := rfl

@[simp] theorem define_values (c : Context) (v : LaneValues) :
    (c.define v).values = c.values.insert c.pc v := rfl

end Context

/-- The kinds that synchronize the lanes and do nothing else. -/
def Kind.isMarker : Kind → Bool
  | barrier | ifStart | endIf => true
  | _ => false

/-- The kinds that leave a value and go on to the next instruction. -/
def Kind.isProducer (k : Kind) : Bool := !k.isVoid && k != .loop

/-- A step from a context that does not fail, with the context and the control
it leaves. -/
inductive Fires (p : Program) (c : Context) : Context → Control → Prop where
  | halt (hu : p.get? c.pc = none) : Fires p c c .halt
  /-- the end of a loop is put on record -/
  | close {u : Uop} {l : Nat} {r : List Nat} (hu : p.get? c.pc = some u) (hk : u.kind = .endLoop)
      (hs : u.src = l :: r) :
      Fires p c { c.counted with loopEnds := c.loopEnds.insert l c.pc } (.jump l)
  | mark {u : Uop} (hu : p.get? c.pc = some u) (hk : u.kind.isMarker = true) :
      Fires p c c.counted .proceed
  | store {u : Uop} {ops : List Operand} {ws : List Write} {m : Memory}
      (hu : p.get? c.pc = some u) (hk : u.kind = .store) (hg : gather p u c = .ok ops)
      (hw : storeWrites c.pc ops = .ok ws) (hm : c.memory.perform ws = (m, .ok ())) :
      Fires p c { c.counted with memory := m } .proceed
  | produce {u : Uop} {d : DType} {ops : List Operand} {c' : Context}
      (hu : p.get? c.pc = some u) (hk : u.kind.isProducer = true) (hd : u.dtype = some d)
      (hg : gather p u c = .ok ops) (hp : produce p u d (c.counted.declared d) ops = .ok c') :
      Fires p c c' .proceed
  /-- a loop is entered -/
  | enter {u : Uop} {d : DType} {ops : List Operand} {v w : Value}
      (hu : p.get? c.pc = some u) (hk : u.kind = .loop) (hd : u.dtype = some d)
      (hg : gather p u c = .ok ops) (hn : c.values.get? c.pc = none)
      (hv : Operand.firstLane c.pc ops 0 = .ok v) (hw : v.convert d.element = .ok w) :
      Fires p c ((c.counted.declared d).define (.scalar (c.warp.splat w))) .proceed
  /-- a loop goes round once more -/
  | again {u : Uop} {d : DType} {ops : List Operand} {counter next : Lanes} {stop : Value}
      (hu : p.get? c.pc = some u) (hk : u.kind = .loop) (hd : u.dtype = some d)
      (hg : gather p u c = .ok ops) (hn : c.values.get? c.pc = some (.scalar counter))
      (hi : counter.mapM Loop.increment = .ok next)
      (hv : Operand.firstLane c.pc ops 1 = .ok stop) (hr : Loop.reached next stop = false) :
      Fires p c ((c.counted.declared d).define (.scalar next)) .proceed
  /-- a loop has come to its end bound -/
  | leave {u : Uop} {d : DType} {ops : List Operand} {counter next : Lanes} {stop : Value} {e : Nat}
      (hu : p.get? c.pc = some u) (hk : u.kind = .loop) (hd : u.dtype = some d)
      (hg : gather p u c = .ok ops) (hn : c.values.get? c.pc = some (.scalar counter))
      (hi : counter.mapM Loop.increment = .ok next)
      (hv : Operand.firstLane c.pc ops 1 = .ok stop) (hr : Loop.reached next stop = true)
      (he : c.loopEnds.get? c.pc = some e) :
      Fires p c { c.counted.declared d with values := c.values.erase c.pc } (.jump (e + 1))

variable {p : Program} {c c' : Context} {k : Control}

theorem enter_eq_ok {d : DType} {ops : List Operand} (h : Loop.enter c d ops = .ok c') :
    ∃ v w, Operand.firstLane c.pc ops 0 = .ok v ∧ v.convert d.element = .ok w ∧
      c' = c.define (.scalar (c.warp.splat w)) := by
  obtain ⟨v, hv, h⟩ := bind_eq_ok.mp h
  obtain ⟨w, hw, h⟩ := bind_eq_ok.mp h
  exact ⟨v, w, hv, mapError_eq_ok.mp hw, (Except.ok.inj h).symm⟩

theorem advance_eq_ok {pc : Nat} {counter next : Lanes} {ops : List Operand} {stop : Value} :
    Loop.advance pc counter ops = .ok (next, stop) ↔
      counter.mapM Loop.increment = .ok next ∧ Operand.firstLane pc ops 1 = .ok stop := by
  unfold Loop.advance
  rw [bind_eq_ok]
  constructor
  · rintro ⟨n, hn, h⟩
    obtain ⟨s, hs, h⟩ := bind_eq_ok.mp h
    cases h
    exact ⟨hn, hs⟩
  · rintro ⟨hn, hs⟩
    exact ⟨next, hn, bind_eq_ok.mpr ⟨stop, hs, rfl⟩⟩

/-- A visit of a loop enters it, counts one round or leaves it. -/
theorem cases_of_visit {d : DType} {ops : List Operand}
    (h : Loop.visit c d ops = (c', .ok k)) :
    (c.values.get? c.pc = none ∧ Loop.enter c d ops = .ok c' ∧ k = .proceed) ∨
    ∃ counter next stop, c.values.get? c.pc = some (.scalar counter) ∧
      counter.mapM Loop.increment = .ok next ∧ Operand.firstLane c.pc ops 1 = .ok stop ∧
      ((Loop.reached next stop = false ∧ c' = c.define (.scalar next) ∧ k = .proceed) ∨
        ∃ e, Loop.reached next stop = true ∧ c.loopEnds.get? c.pc = some e ∧
          c' = { c with values := c.values.erase c.pc } ∧ k = .jump (e + 1)) := by
  unfold Loop.visit at h
  split at h
  · rename_i hn
    cases he : Loop.enter c d ops with
    | error f => rw [he] at h; cases h
    | ok c₁ =>
      rw [he] at h
      cases h
      exact .inl ⟨hn, rfl, rfl⟩
  · rename_i counter hn
    refine .inr ⟨counter, ?_⟩
    cases ha : Loop.advance c.pc counter ops with
    | error f => rw [ha] at h; cases h
    | ok r =>
      obtain ⟨next, stop⟩ := r
      obtain ⟨hi, hv⟩ := advance_eq_ok.mp ha
      refine ⟨next, stop, hn, hi, hv, ?_⟩
      simp only [ha] at h
      cases hr : Loop.reached next stop with
      | false =>
        rw [if_neg (by simp [hr])] at h
        cases h
        exact .inl ⟨rfl, rfl, rfl⟩
      | true =>
        rw [if_pos hr] at h
        unfold Loop.leave at h
        cases he : c.loopEnds.get? c.pc with
        | none => rw [he] at h; cases h
        | some e =>
          rw [he] at h
          cases h
          exact .inr ⟨e, rfl, rfl, rfl, rfl⟩
  · cases h

theorem visit_fires {u : Uop} {d : DType} {ops : List Operand} (hu : p.get? c.pc = some u)
    (hk : u.kind = .loop) (hd : u.dtype = some d) (hg : gather p u c = .ok ops)
    (h : Loop.visit (c.counted.declared d) d ops = (c', .ok k)) : Fires p c c' k := by
  obtain ⟨hn, he, rfl⟩ | ⟨counter, next, stop, hn, hi, hv, hround⟩ := cases_of_visit h
  · obtain ⟨v, w, hv, hw, rfl⟩ := enter_eq_ok he
    exact .enter hu hk hd hg hn hv hw
  · obtain ⟨hr, rfl, rfl⟩ | ⟨e, hr, he, rfl, rfl⟩ := hround
    · exact .again hu hk hd hg hn hi hv hr
    · exact .leave hu hk hd hg hn hi hv hr he

/-- An instruction that declares a type visits its loop or makes its value. -/
theorem cases_of_define {u : Uop} {ops : List Operand} (hv : u.kind.isVoid = false)
    (h : define p u c ops = (c', .ok k)) :
    ∃ d, u.dtype = some d ∧
      ((u.kind = .loop ∧ Loop.visit (c.declared d) d ops = (c', .ok k)) ∨
        u.kind.isProducer = true ∧ produce p u d (c.declared d) ops = .ok c' ∧ k = .proceed) := by
  unfold define at h
  cases hd : u.dtype with
  | none => simp [hd] at h
  | some d =>
    refine ⟨d, rfl, ?_⟩
    simp only [hd] at h
    split at h
    · rename_i hk
      exact .inl ⟨hk, h⟩
    · rename_i hk
      have hprod : u.kind.isProducer = true := by simpa [Kind.isProducer, hv] using hk
      cases hp : produce p u d (c.declared d) ops with
      | error f =>
        rw [show produce p u d { c with types := c.types.insert c.pc d } ops = _ from hp] at h
        cases h
      | ok c₁ =>
        rw [show produce p u d { c with types := c.types.insert c.pc d } ops = _ from hp] at h
        cases h
        exact .inr ⟨hprod, rfl, rfl⟩

theorem define_fires {u : Uop} {ops : List Operand} (hu : p.get? c.pc = some u)
    (hv : u.kind.isVoid = false) (hg : gather p u c = .ok ops)
    (h : define p u c.counted ops = (c', .ok k)) : Fires p c c' k := by
  obtain ⟨d, hd, ⟨hk, hvisit⟩ | ⟨hk, hp, rfl⟩⟩ := cases_of_define hv h
  · exact visit_fires hu hk hd hg hvisit
  · exact .produce hu hk hd hg hp

/-- A store that does not fail has done all its writes. -/
theorem exists_writes_of_store {ops : List Operand} (h : store c ops = (c', .ok k)) :
    ∃ ws m, storeWrites c.pc ops = .ok ws ∧ c.memory.perform ws = (m, .ok ()) ∧
      c' = { c with memory := m } ∧ k = .proceed := by
  unfold store at h
  cases hw : storeWrites c.pc ops with
  | error f => simp [hw] at h
  | ok ws =>
    obtain ⟨m, r, hm⟩ : ∃ m r, c.memory.perform ws = (m, r) := ⟨_, _, rfl⟩
    simp only [hw, hm] at h
    obtain ⟨rfl, h⟩ := Prod.mk.inj h
    cases r with
    | error f => cases h
    | ok a =>
      cases h
      exact ⟨ws, m, rfl, hm, rfl, rfl⟩

theorem store_fires {u : Uop} {ops : List Operand} (hu : p.get? c.pc = some u)
    (hk : u.kind = .store) (hg : gather p u c = .ok ops)
    (h : store c.counted ops = (c', .ok k)) : Fires p c c' k := by
  obtain ⟨ws, m, hw, hm, rfl, rfl⟩ := exists_writes_of_store h
  exact .store hu hk hg hw hm

/-- The step function does nothing that `Fires` does not list. -/
theorem fires_of_step (h : step p c = (c', .ok k)) : Fires p c c' k := by
  unfold step at h
  cases hu : p.get? c.pc with
  | none =>
    simp only [hu] at h
    cases h
    exact .halt hu
  | some u =>
    simp only [hu] at h
    change execute p u c.counted = _ at h
    unfold execute at h
    split at h
    · rename_i hk
      unfold closeLoop at h
      cases hs : u.src with
      | nil => simp [hs] at h
      | cons l r =>
        simp only [hs] at h
        cases h
        exact .close hu hk hs
    · rename_i hk
      cases h
      exact .mark hu (by simp [hk, Kind.isMarker])
    · rename_i hk
      cases h
      exact .mark hu (by simp [hk, Kind.isMarker])
    · rename_i hk
      cases h
      exact .mark hu (by simp [hk, Kind.isMarker])
    · rename_i h₁ h₂ h₃ h₄
      cases hg : gather p u c with
      | error f =>
        rw [show gather p u c.counted = _ from hg] at h
        cases h
      | ok ops =>
        rw [show gather p u c.counted = _ from hg] at h
        dsimp only at h
        split at h
        · rename_i hk
          exact store_fires hu hk hg h
        · rename_i hk
          refine define_fires hu ?_ hg h
          cases hkind : u.kind <;> simp_all [Kind.isVoid]

theorem step_of_endLoop {u : Uop} (hu : p.get? c.pc = some u) (hk : u.kind = .endLoop) :
    step p c = closeLoop u c.counted := by
  rw [step, hu]
  change execute p u c.counted = _
  simp only [execute, hk]

/-- How an instruction with operands is executed once they are gathered. -/
theorem step_of_gather {u : Uop} {ops : List Operand} (hu : p.get? c.pc = some u)
    (hk : u.kind ≠ .endLoop) (hm : u.kind.isMarker = false) (hg : gather p u c = .ok ops) :
    step p c = if u.kind = .store then store c.counted ops else define p u c.counted ops := by
  unfold step
  rw [hu]
  change execute p u c.counted = _
  unfold execute
  rw [show gather p u c.counted = _ from hg]
  cases hkind : u.kind <;> simp_all [Kind.isMarker]

theorem step_of_loop {u : Uop} {d : DType} {ops : List Operand} (hu : p.get? c.pc = some u)
    (hk : u.kind = .loop) (hd : u.dtype = some d) (hg : gather p u c = .ok ops) :
    step p c = Loop.visit (c.counted.declared d) d ops := by
  rw [step_of_gather hu (by simp [hk]) (by simp [hk, Kind.isMarker]) hg, if_neg (by simp [hk])]
  unfold define
  simp only [hd, hk]
  rfl

/-- Whatever `Fires` lists, the step function does. -/
theorem step_of_fires (h : Fires p c c' k) : step p c = (c', .ok k) := by
  cases h with
  | halt hu => rw [step, hu]
  | close hu hk hs =>
    rw [step, hu]
    simp [execute, hk, closeLoop, hs, Context.counted]
  | @mark u hu hk =>
    rw [step, hu]
    cases hkind : u.kind <;> simp_all [Kind.isMarker, execute, Context.counted]
  | store hu hk hg hw hm =>
    rw [step_of_gather hu (by simp [hk]) (by simp [hk, Kind.isMarker]) hg, if_pos hk, store]
    simp only [Context.counted_pc, hw, Context.counted_memory, hm]
    rfl
  | @produce u d ops c' hu hk hd hg hp =>
    have hkind : u.kind ≠ .endLoop ∧ u.kind.isMarker = false ∧ u.kind ≠ .store ∧
        u.kind ≠ .loop := by
      cases hkind : u.kind <;> simp_all [Kind.isProducer, Kind.isVoid, Kind.isMarker]
    obtain ⟨hend, hmarker, hstore, hloop⟩ := hkind
    rw [step_of_gather hu hend hmarker hg, if_neg hstore]
    unfold define
    simp only [hd]
    rw [show produce p u d { c.counted with types := c.counted.types.insert c.counted.pc d } ops =
      .ok c' from hp]
  | enter hu hk hd hg hn hv hw =>
    rw [step_of_loop hu hk hd hg, Loop.visit]
    simp [hn, Loop.enter, hv, hw, conversion, Except.mapError, bind, Except.bind, pure,
      Except.pure]
  | again hu hk hd hg hn hi hv hr =>
    have ha := advance_eq_ok.mpr ⟨hi, hv⟩
    rw [step_of_loop hu hk hd hg, Loop.visit]
    simp [hn, ha, hr]
  | leave hu hk hd hg hn hi hv hr he =>
    have ha := advance_eq_ok.mpr ⟨hi, hv⟩
    rw [step_of_loop hu hk hd hg, Loop.visit]
    simp [hn, ha, hr, Loop.leave, he]

end Lockstep
