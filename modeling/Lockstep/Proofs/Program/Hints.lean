import Lockstep.Proofs.Program.WellFormed
import Lockstep.Run
import Mathlib.Logic.Relation

/-!
# Operands that only order

An operand that names a void instruction is not read. Programs that differ in such
operands alone run through the same contexts, and putting one in or taking one out
makes no difference to the checks before a launch. The end of a loop is apart: the
operand it names is where it goes back to.
-/

namespace Lockstep

/-- Instructions of two programs that differ in nothing that is read. -/
structure Uop.ReadsAlike (p q : Program) (u v : Uop) : Prop where
  kind : v.kind = u.kind
  dtype : v.dtype = u.dtype
  arg : v.arg = u.arg
  target : u.kind = .endLoop → v.src = u.src
  operands : q.valueOperands v = p.valueOperands u

namespace Program

/-- Programs of one length whose instructions differ in nothing that is read. -/
structure ReadsAlike (p q : Program) : Prop where
  length : q.length = p.length
  uops : ∀ pc u v, p.get? pc = some u → q.get? pc = some v → u.ReadsAlike p q v

/-- The second program has one operand more than the first: one that names an
earlier void instruction, in an instruction that does not end a loop. -/
inductive AddsHint (p : Program) : Program → Prop where
  | mk {pc s : Nat} {u : Uop} {before after : List Nat} (hu : p.get? pc = some u)
      (hk : u.kind ≠ .endLoop) (hsrc : u.src = before ++ after) (hs : s < pc)
      (hv : p.isVoidAt s = true) :
      AddsHint p ⟨p.uops.set pc { u with src := before ++ s :: after }⟩

end Program

/-! ## Steps and runs -/

section

variable {p q : Program} {u v : Uop} {c : Context}

theorem gather_of_readsAlike (h : u.ReadsAlike p q v) : gather q v c = gather p u c := by
  unfold gather
  rw [h.operands]

theorem produce_of_readsAlike (h : u.ReadsAlike p q v) (d : DType) (ops : List Operand) :
    produce q v d c ops = produce p u d c ops := by
  unfold produce carry
  rw [h.kind, h.arg, h.operands]

theorem define_of_readsAlike (h : u.ReadsAlike p q v) (ops : List Operand) :
    define q v c ops = define p u c ops := by
  unfold define
  rw [h.dtype, h.kind]
  simp only [produce_of_readsAlike h]

theorem execute_of_readsAlike (h : u.ReadsAlike p q v) : execute q v c = execute p u c := by
  unfold execute
  rw [h.kind, gather_of_readsAlike h]
  simp only [define_of_readsAlike h]
  split
  · rename_i hk
    unfold closeLoop
    rw [h.target hk]
  all_goals rfl

theorem step_of_readsAlike (h : p.ReadsAlike q) (c : Context) : step q c = step p c := by
  unfold step
  cases hu : p.get? c.pc with
  | none =>
    have hle : q.length ≤ c.pc := h.length ▸ List.getElem?_eq_none_iff.mp hu
    rw [show q.get? c.pc = none from List.getElem?_eq_none hle]
  | some u =>
    have hlt : c.pc < q.length := h.length ▸ Program.get?_lt_length hu
    have hv : q.get? c.pc = some q.uops[c.pc] := List.getElem?_eq_getElem hlt
    rw [hv]
    exact execute_of_readsAlike (h.uops _ _ _ hu hv)

theorem run_of_readsAlike (h : p.ReadsAlike q) (limit : Nat) (c : Context) :
    run q limit c = run p limit c := by
  induction limit generalizing c with
  | zero => rfl
  | succ limit ih =>
    unfold run
    rw [step_of_readsAlike h]
    simp only [ih]

theorem history_of_readsAlike (h : p.ReadsAlike q) (limit : Nat) (c : Context) :
    history q limit c = history p limit c := by
  induction limit generalizing c with
  | zero => rfl
  | succ limit ih =>
    unfold history
    rw [step_of_readsAlike h]
    simp only [ih]

end

/-! ## Hints put in and taken out -/

namespace Program

variable {p q r : Program} {u v w : Uop}

theorem ReadsAlike.refl (p : Program) : p.ReadsAlike p where
  length := rfl
  uops pc u v hu hv := by
    obtain rfl := Option.some.inj (hu.symm.trans hv)
    exact ⟨rfl, rfl, rfl, fun _ => rfl, rfl⟩

theorem ReadsAlike.symm (h : p.ReadsAlike q) : q.ReadsAlike p where
  length := h.length.symm
  uops pc v u hv hu := by
    obtain ⟨hkind, hdtype, harg, htarget, hoperands⟩ := h.uops pc u v hu hv
    exact ⟨hkind.symm, hdtype.symm, harg.symm, fun hk => (htarget (hkind ▸ hk)).symm,
      hoperands.symm⟩

theorem ReadsAlike.trans (h : p.ReadsAlike q) (h' : q.ReadsAlike r) : p.ReadsAlike r where
  length := h'.length.trans h.length
  uops pc u w hu hw := by
    have hlt : pc < q.length := h.length ▸ get?_lt_length hu
    have hv : q.get? pc = some q.uops[pc] := List.getElem?_eq_getElem hlt
    have hpq := h.uops _ _ _ hu hv
    have hqr := h'.uops _ _ _ hv hw
    exact ⟨hqr.kind.trans hpq.kind, hqr.dtype.trans hpq.dtype, hqr.arg.trans hpq.arg,
      fun hk => (hqr.target (hpq.kind.trans hk)).trans (hpq.target hk),
      hqr.operands.trans hpq.operands⟩

/-- An added hint leaves the kinds of all instructions as they are. -/
theorem AddsHint.kind_eq (h : p.AddsHint q) (pc : Nat) :
    (q.get? pc).map Uop.kind = (p.get? pc).map Uop.kind := by
  cases h with
  | @mk pc₀ s u before after hu hk hsrc hs hv =>
    by_cases hpc : pc₀ = pc
    · subst hpc
      have hlt : pc₀ < p.uops.length := get?_lt_length hu
      rw [hu]
      simp [get?, List.getElem?_set_self hlt]
    · simp [get?, List.getElem?_set_ne hpc]

theorem AddsHint.isVoidAt_eq (h : p.AddsHint q) (s : Nat) : q.isVoidAt s = p.isVoidAt s := by
  have hkind := h.kind_eq s
  unfold isVoidAt
  cases hp : p.get? s <;> cases hq : q.get? s <;> simp_all

theorem AddsHint.isLoopAt_eq (h : p.AddsHint q) (s : Nat) : q.isLoopAt s = p.isLoopAt s := by
  have hkind := h.kind_eq s
  unfold isLoopAt
  cases hp : p.get? s <;> cases hq : q.get? s <;> simp_all

/-- At each position there is the same instruction, or one whose operands have the
hint between them. -/
theorem AddsHint.uop_cases (h : p.AddsHint q) {pc : Nat} (hu : p.get? pc = some u)
    (hv : q.get? pc = some v) : v = u ∨
      ∃ before s after, u.kind ≠ .endLoop ∧ u.src = before ++ after ∧ s < pc ∧
        p.isVoidAt s = true ∧ v = { u with src := before ++ s :: after } := by
  cases h with
  | @mk pc₀ s u₀ before after hu₀ hk hsrc hs hvoid =>
    by_cases hpc : pc₀ = pc
    · subst hpc
      obtain rfl := Option.some.inj (hu₀.symm.trans hu)
      have hlt : pc₀ < p.uops.length := get?_lt_length hu
      simp only [get?, List.getElem?_set_self hlt, Option.some.injEq] at hv
      exact .inr ⟨before, s, after, hk, hsrc, hs, hvoid, hv.symm⟩
    · simp only [get?, List.getElem?_set_ne hpc] at hv
      exact .inl (Option.some.inj (hv.symm.trans hu))

theorem AddsHint.readsAlike (h : p.AddsHint q) : p.ReadsAlike q where
  length := by
    obtain ⟨hu, hk, hsrc, hs, hv⟩ := h
    exact List.length_set
  uops pc u v hu hv := by
    rcases h.uop_cases hu hv with rfl | ⟨before, s, after, hk, hsrc, hs, hvoid, rfl⟩
    · exact ⟨rfl, rfl, rfl, fun _ => rfl, by simp only [valueOperands, h.isVoidAt_eq]⟩
    · refine ⟨rfl, rfl, rfl, fun hend => absurd hend hk, ?_⟩
      simp only [valueOperands, h.isVoidAt_eq, hsrc]
      simp [List.filter_append, hvoid]

/-! ## Checks before a launch -/

theorem firstDefect?_congr {us vs : List Uop} (hlength : vs.length = us.length) {pc : Nat}
    (h : ∀ i u v, us[i]? = some u → vs[i]? = some v → q.defect? (pc + i) v = p.defect? (pc + i) u) :
    q.firstDefect? pc vs = p.firstDefect? pc us := by
  induction us generalizing vs pc with
  | nil =>
    obtain rfl := List.length_eq_zero_iff.mp hlength
    rfl
  | cons u us ih =>
    obtain ⟨v, vs, rfl⟩ := List.exists_cons_of_length_eq_add_one hlength
    have hrest : q.firstDefect? (pc + 1) vs = p.firstDefect? (pc + 1) us := by
      refine ih (Nat.succ.inj hlength) fun i u v hu hv => ?_
      rw [Nat.add_assoc, Nat.add_comm 1 i]
      exact h (i + 1) u v hu hv
    unfold firstDefect?
    rw [hrest, show q.defect? pc v = p.defect? pc u from h 0 u v rfl rfl]

theorem AddsHint.defect?_eq (h : p.AddsHint q) {pc : Nat} (hu : p.get? pc = some u)
    (hv : q.get? pc = some v) : q.defect? pc v = p.defect? pc u := by
  have halike := h.readsAlike.uops pc u v hu hv
  -- the hint is earlier, so the first late operand is the same
  have hlate : (v.src.find? fun s => decide (pc ≤ s)) = u.src.find? fun s => decide (pc ≤ s) := by
    rcases h.uop_cases hu hv with rfl | ⟨before, s, after, -, hsrc, hs, -, rfl⟩
    · rfl
    · have hnot : ¬ pc ≤ s := Nat.not_le_of_lt hs
      simp [hsrc, List.find?_append, hnot]
  have htakes : ∀ n, takes v n = takes u n := by
    intro n
    unfold takes
    rw [halike.kind]
    cases hk : u.kind with
    | endLoop => rw [halike.target hk]
    | _ => rfl
  unfold defect?
  rw [hlate, halike.operands, halike.kind, halike.dtype]
  simp only [htakes, h.isLoopAt_eq]
  by_cases hk : u.kind = .endLoop
  · rw [halike.target hk]
  · cases hkind : u.kind with
    | endLoop => exact absurd hkind hk
    | _ => rfl

theorem AddsHint.validate_eq (h : p.AddsHint q) : q.validate = p.validate := by
  have hdefect : q.firstDefect? 0 q.uops = p.firstDefect? 0 p.uops := by
    refine firstDefect?_congr h.readsAlike.length fun i u v hu hv => ?_
    rw [Nat.zero_add]
    exact h.defect?_eq hu hv
  unfold validate
  rw [hdefect]

/-- Programs whose instructions differ in nothing that is read go through the same
contexts and end in the same way, from every context. Hints put in and taken out,
however many and wherever, leave the result of the checks before a launch as it is,
and nothing that is read. -/
theorem hints_only_order (p q : Program) :
    (p.ReadsAlike q → ∀ limit c,
      history q limit c = history p limit c ∧ run q limit c = run p limit c) ∧
    (Relation.EqvGen AddsHint p q → q.validate = p.validate ∧ p.ReadsAlike q) := by
  refine ⟨fun h limit c => ⟨history_of_readsAlike h limit c, run_of_readsAlike h limit c⟩, ?_⟩
  intro h
  induction h with
  | rel p q h => exact ⟨h.validate_eq, h.readsAlike⟩
  | refl p => exact ⟨rfl, .refl p⟩
  | symm p q _ ih => exact ⟨ih.1.symm, ih.2.symm⟩
  | trans p q r _ _ ih ih' => exact ⟨ih'.1.trans ih.1, ih.2.trans ih'.2⟩

/-- Loads from its local buffer, past the gate, what it has stored there. -/
def gatedReload (loadSrc : List Nat) : Program where
  uops :=
    [⟨.defineLocal, some (.scalar (.int .int32)), [], .buffer "tile" 1⟩,
     ⟨.const, some (.scalar (.int .int32)), [], .literal (.int 0)⟩,
     ⟨.const, some (.scalar (.int .int32)), [], .literal (.int 7)⟩,
     ⟨.const, some (.scalar .bool), [], .literal (.bool true)⟩,
     ⟨.store, none, [0, 1, 2], .none⟩,
     ⟨.barrier, none, [4], .none⟩,
     ⟨.load, some (.scalar (.int .int32)), loadSrc, .none⟩]

/-- A gated load that also waits for a barrier is still a gated load. -/
theorem hints_only_order_gatedReload :
    run (gatedReload [0, 1, 3, 2, 5]) 8 (.start ⟨0, 0, 0⟩ ⟨⟨2, 1, 1⟩⟩ [] []) =
        run (gatedReload [0, 1, 3, 2]) 8 (.start ⟨0, 0, 0⟩ ⟨⟨2, 1, 1⟩⟩ [] []) ∧
      (gatedReload [0, 1, 3, 2, 5]).validate = (gatedReload [0, 1, 3, 2]).validate := by
  have hload : (gatedReload [0, 1, 3, 2]).get? 6 =
      some ⟨.load, some (.scalar (.int .int32)), [0, 1, 3, 2], .none⟩ := rfl
  have hadds : (gatedReload [0, 1, 3, 2]).AddsHint (gatedReload [0, 1, 3, 2, 5]) :=
    @AddsHint.mk _ 6 5 _ [0, 1, 3, 2] [] hload (by decide) rfl (by decide) rfl
  have h := hints_only_order (gatedReload [0, 1, 3, 2]) (gatedReload [0, 1, 3, 2, 5])
  obtain ⟨hvalidate, halike⟩ := h.2 (.rel _ _ hadds)
  exact ⟨(h.1 halike 8 _).2, hvalidate⟩

end Program

end Lockstep
