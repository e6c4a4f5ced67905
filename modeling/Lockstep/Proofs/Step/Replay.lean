import Lockstep.Proofs.Step.Failure
import Lockstep.Proofs.Step.Reads

/-!
# The same step on other buffers

A step reads what its load reads and leaves the patches of its store. On other
buffers of the caller, of the same shapes and the same where the step reads, it
does the same and leaves the same patches.
-/

namespace Lockstep

namespace Context

/-- The context with other buffers of the caller. -/
def on (c : Context) (gs : List Buffer) : Context := { c with memory := c.memory.on gs }

/-- The patches that the step at the context leaves. -/
def patches (p : Program) (c : Context) : List Patch :=
  match p.get? c.pc with
  | none => []
  | some u =>
    if u.kind = .store then
      match gather p u c >>= storeWrites c.pc with
      | .ok ws => c.memory.patches ws
      | .error _ => []
    else []

/-- The views through which the step at the context reads. -/
def reads (p : Program) (c : Context) : List View :=
  match p.get? c.pc with
  | none => []
  | some u =>
    if u.kind = .load then
      match u.dtype with
      | none => []
      | some d => Reads.after (gather p u c) fun ops => Reads.load c.memory d ops
    else []

end Context

variable {p : Program} {u : Uop} {d : DType} {c : Context} {ops : List Operand} {gs : List Buffer}

theorem Memory.bind?_on {m : Memory} (hs : shapes m.globals = shapes gs) (t : ScalarType) :
    (m.on gs).bind? t = (m.bind? t).map fun r => (r.1, r.2.on gs) := by
  have hshape := shape_getElem? hs m.bound
  unfold bind?
  change gs[m.bound]?.map _ = _
  cases hb : m.globals[m.bound]? with
  | none =>
    rw [hb] at hshape
    rw [Option.map_eq_none_iff.mp hshape.symm]
    rfl
  | some b =>
    rw [hb] at hshape
    obtain ⟨g, hg, hgb⟩ := Option.map_eq_some_iff.mp hshape.symm
    have hsize : g.size = b.size := congrArg Prod.snd hgb
    rw [hg]
    simp only [Option.map_some, Buffer.checkView, Buffer.fits, hsize]
    rfl

theorem Context.defineGlobal_on (hs : shapes c.memory.globals = shapes gs) :
    (c.on gs).defineGlobal d = (c.defineGlobal d).map (·.on gs) := by
  refine bind_map_of fun t _ => ?_
  rw [show (c.on gs).memory.bind? t = _ from Memory.bind?_on hs t]
  cases c.memory.bind? t with
  | none => rfl
  | some r => exact bind_map_of fun view _ => rfl

theorem Context.defineLocal_on {arg : Arg} :
    (c.on gs).defineLocal d arg = (c.defineLocal d arg).map (·.on gs) := by
  refine bind_map_of fun t _ => ?_
  cases arg <;> rfl

theorem Context.defineVar_on : (c.on gs).defineVar d = (c.defineVar d).map (·.on gs) := by
  have hvalue : (c.on gs).launchValues[(c.on gs).bound]? = c.launchValues[c.bound]? := rfl
  unfold defineVar
  rw [hvalue]
  cases c.launchValues[c.bound]? with
  | none => rfl
  | some v => exact bind_map_of fun w _ => rfl

theorem Context.special_on {arg : Arg} :
    (c.on gs).special d arg = (c.special d arg).map (·.on gs) := by
  cases arg with
  | axis dim name =>
    have hnames : (c.on gs).coordinates? dim name = c.coordinates? dim name := rfl
    have hvalue : (c.on gs).values.contains (c.on gs).pc = c.values.contains c.pc := rfl
    unfold special
    dsimp only
    rw [hnames, hvalue]
    split
    · rfl
    · cases c.coordinates? dim name with
      | some ns => exact bind_map_of fun lanes _ => rfl
      | none => cases c.values.contains c.pc <;> rfl
  | _ => rfl

theorem Context.constant_on {arg : Arg} :
    (c.on gs).constant d arg = (c.constant d arg).map (·.on gs) := by
  cases arg with
  | literal l => exact bind_map_of fun v _ => rfl
  | _ => rfl

theorem carry_on : carry p u (c.on gs) ops = (carry p u c ops).map (·.on gs) := by
  unfold carry
  cases p.valueOperands u with
  | nil => rfl
  | cons a r => exact bind_map_of fun o _ => rfl

theorem map_define_on (x : Except Fault LaneValues) :
    x.map (c.on gs).define = (x.map c.define).map (·.on gs) := by
  cases x <;> rfl

/-- An instruction makes the same out of its operands, if it reads the same. -/
theorem produce_on (hs : shapes c.memory.globals = shapes gs)
    (hr : u.kind = .load → c.memory.AgreesOn gs (Reads.load c.memory d ops)) :
    produce p u d (c.on gs) ops = (produce p u d c ops).map (·.on gs) := by
  unfold produce
  cases hk : u.kind with
  | defineGlobal => exact Context.defineGlobal_on hs
  | defineLocal => exact Context.defineLocal_on
  | defineVar => exact Context.defineVar_on
  | special => exact Context.special_on
  | const => exact Context.constant_on
  | defineAcc => exact Context.constant_on
  | load =>
    dsimp only
    rw [← map_define_on, ← Reads.load_on hs (hr hk)]
    rfl
  | phi => exact carry_on
  | cast => exact map_define_on _
  | gep => exact map_define_on _
  | wmma => exact map_define_on _
  | alu => exact map_define_on _
  | _ => rfl

theorem Loop.enter_on : Loop.enter (c.on gs) d ops = (Loop.enter c d ops).map (·.on gs) :=
  bind_map_of fun _ _ => bind_map_of fun _ _ => rfl

theorem Loop.visit_on : Loop.visit (c.on gs) d ops = (Loop.visit c d ops).map (·.on gs) id := by
  have hvalue : (c.on gs).values.get? (c.on gs).pc = c.values.get? c.pc := rfl
  unfold visit
  rw [enter_on, hvalue]
  cases c.values.get? c.pc with
  | none => cases enter c d ops <;> rfl
  | some v =>
    cases v with
    | scalar counter =>
      have hadvance : advance (c.on gs).pc counter ops = advance c.pc counter ops := rfl
      dsimp only
      rw [hadvance]
      cases advance c.pc counter ops with
      | error f => rfl
      | ok r =>
        obtain ⟨next, stop⟩ := r
        dsimp only
        cases reached next stop <;> rfl
    | _ => rfl

/-- An instruction that is not a loop goes on with what it makes. -/
theorem define_of_made {c' : Context} (hd : u.dtype = some d) (hk : u.kind ≠ .loop)
    (h : produce p u d (c.declared d) ops = .ok c') : define p u c ops = (c', .ok .proceed) := by
  have hmade : produce p u d { c with types := c.types.insert c.pc d } ops = .ok c' := h
  simp only [define, hd, hmade]

theorem define_of_refused {f : Fault} (hd : u.dtype = some d) (hk : u.kind ≠ .loop)
    (h : produce p u d (c.declared d) ops = .error f) :
    define p u c ops = (c.declared d, .error f) := by
  have hrefused : produce p u d { c with types := c.types.insert c.pc d } ops = .error f := h
  simp only [define, hd, hrefused]
  rfl

theorem define_on (hs : shapes c.memory.globals = shapes gs)
    (hr : u.kind = .load → ∀ d, u.dtype = some d → c.memory.AgreesOn gs (Reads.load c.memory d ops)) :
    define p u (c.on gs) ops = (define p u c ops).map (·.on gs) id := by
  cases hd : u.dtype with
  | none =>
    rw [define, define, hd]
    rfl
  | some d =>
    by_cases hk : u.kind = .loop
    · have hvisit : Loop.visit ((c.declared d).on gs) d ops =
          (Loop.visit (c.declared d) d ops).map (·.on gs) id := Loop.visit_on
      rw [define, define, hd, hk]
      exact hvisit
    · have hmade : produce p u d ((c.declared d).on gs) ops =
          (produce p u d (c.declared d) ops).map (·.on gs) :=
        produce_on hs fun hload => hr hload d hd
      cases hp : produce p u d (c.declared d) ops with
      | ok c' =>
        rw [hp] at hmade
        rw [define_of_made hd hk hp, define_of_made hd hk (c := c.on gs) hmade]
        rfl
      | error f =>
        rw [hp] at hmade
        rw [define_of_refused hd hk hp, define_of_refused hd hk (c := c.on gs) hmade]
        rfl

theorem store_on (hs : shapes c.memory.globals = shapes gs) {ws : List Write}
    (hw : storeWrites c.pc ops = .ok ws) :
    store (c.on gs) ops =
      (store c ops).map (·.on (Patch.applyAll (c.memory.patches ws) gs)) id := by
  unfold store
  rw [show storeWrites (c.on gs).pc ops = _ from hw, hw]
  dsimp only
  rw [show (c.on gs).memory.perform ws = _ from Memory.perform_on hs ws]
  rfl

theorem Context.patches_of_ne_store (hu : p.get? c.pc = some u) (hk : u.kind ≠ .store) :
    c.patches p = [] := by
  rw [patches, hu]
  exact if_neg hk

theorem Context.patches_of_store (hu : p.get? c.pc = some u) (hk : u.kind = .store) :
    c.patches p = match gather p u c >>= storeWrites c.pc with
      | .ok ws => c.memory.patches ws
      | .error _ => [] := by
  rw [patches, hu]
  exact if_pos hk

theorem Context.reads_of_load (hu : p.get? c.pc = some u) (hk : u.kind = .load)
    (hd : u.dtype = some d) (hg : gather p u c = .ok ops) :
    c.reads p = Reads.load c.memory d ops := by
  simp only [reads, hu, if_pos hk, hd, hg, Reads.after]

theorem store_step_on (hs : shapes c.memory.globals = shapes gs) (hu : p.get? c.pc = some u)
    (hk : u.kind = .store) (hg : gather p u c = .ok ops) :
    store (c.counted.on gs) ops =
      (store c.counted ops).map (·.on (Patch.applyAll (c.patches p) gs)) id := by
  have hpatches : c.patches p = match storeWrites c.pc ops with
      | .ok ws => c.memory.patches ws
      | .error _ => [] := by
    rw [Context.patches_of_store hu hk, hg]
    rfl
  rw [hpatches]
  cases hw : storeWrites c.pc ops with
  | ok ws => exact store_on (c := c.counted) hs hw
  | error f =>
    unfold store
    rw [show storeWrites (c.counted.on gs).pc ops = _ from hw,
      show storeWrites c.counted.pc ops = _ from hw]
    rfl

/-- On other buffers of the same shapes, the same where it reads, a step does the
same and leaves the same patches. -/
theorem step_on (hs : shapes c.memory.globals = shapes gs)
    (hr : c.memory.AgreesOn gs (c.reads p)) :
    step p (c.on gs) = (step p c).map (·.on (Patch.applyAll (c.patches p) gs)) id := by
  cases hu : p.get? c.pc with
  | none =>
    have hnone : p.get? (c.on gs).pc = none := hu
    rw [step, step, hnone, hu, Context.patches, hu]
    rfl
  | some u =>
    have hu' : p.get? (c.on gs).pc = some u := hu
    by_cases hend : u.kind = .endLoop
    · rw [Context.patches_of_ne_store hu (by simp [hend]), step_of_endLoop hu hend,
        step_of_endLoop hu' hend]
      unfold closeLoop
      cases u.src <;> rfl
    · cases hmarker : u.kind.isMarker with
      | true =>
        have hstore : u.kind ≠ .store := by
          intro hk
          rw [hk] at hmarker
          cases hmarker
        rw [Context.patches_of_ne_store hu hstore, step_of_fires (.mark hu hmarker),
          step_of_fires (.mark hu' hmarker)]
        rfl
      | false =>
        cases hg : gather p u c with
        | error f =>
          have hg' : gather p u (c.on gs) = .error f := hg
          rw [step_of_gather_error hu' hend hmarker hg', step_of_gather_error hu hend hmarker hg]
          by_cases hk : u.kind = .store
          · rw [Context.patches_of_store hu hk, hg]
            rfl
          · rw [Context.patches_of_ne_store hu hk]
            rfl
        | ok ops =>
          have hg' : gather p u (c.on gs) = .ok ops := hg
          rw [step_of_gather hu' hend hmarker hg', step_of_gather hu hend hmarker hg]
          by_cases hk : u.kind = .store
          · rw [if_pos hk, if_pos hk]
            exact store_step_on hs hu hk hg
          · rw [if_neg hk, if_neg hk, Context.patches_of_ne_store hu hk]
            refine define_on (c := c.counted) hs fun hload d hd => ?_
            rw [Context.reads_of_load hu hload hd hg] at hr
            exact hr

end Lockstep
