import Lockstep.Program.Validate
import Mathlib.Data.List.Basic

/-!
# Accepted programs

What the structural checks promise about every instruction of a program that
passes them.
-/

namespace Lockstep.Program

/-- A program in which no instruction has a defect. -/
structure Accepted (p : Program) : Prop where
  /-- operands come before their users -/
  src_lt : ∀ {pc u s}, p.get? pc = some u → s ∈ u.src → s < pc
  /-- what has a value has a type -/
  typed : ∀ {pc u}, p.get? pc = some u → u.kind.isVoid = false → ∃ d, u.dtype = some d
  /-- the kind takes as many value operands as there are -/
  arity : ∀ {pc u}, p.get? pc = some u → takes u (p.valueOperands u).length = true
  /-- the end of a loop names one instruction, which is a loop -/
  endLoop : ∀ {pc u}, p.get? pc = some u → u.kind = .endLoop →
    ∃ l, u.src = [l] ∧ p.isLoopAt l = true

variable {p : Program}

theorem firstDefect?_eq_none {us : List Uop} {pc : Nat} :
    p.firstDefect? pc us = none ↔ ∀ i u, us[i]? = some u → p.defect? (pc + i) u = none := by
  induction us generalizing pc with
  | nil => simp [firstDefect?]
  | cons u us ih =>
    constructor
    · intro h i v hv
      rw [firstDefect?] at h
      cases hd : p.defect? pc u with
      | some m => simp [hd] at h
      | none =>
        simp only [hd] at h
        cases i with
        | zero =>
          obtain rfl : u = v := by simpa using hv
          simpa using hd
        | succ i =>
          have := ih.mp h i v (by simpa using hv)
          rwa [Nat.add_assoc, Nat.add_comm 1 i] at this
    · intro h
      have hd : p.defect? pc u = none := by simpa using h 0 u rfl
      rw [firstDefect?]
      simp only [hd]
      rw [ih]
      intro i v hv
      have := h (i + 1) v (by simpa using hv)
      rwa [Nat.add_assoc, Nat.add_comm 1 i]

theorem validate_eq_ok : p.validate = .ok () ↔
    ∀ pc u, p.get? pc = some u → p.defect? pc u = none := by
  have hscan := @firstDefect?_eq_none p p.uops 0
  simp only [Nat.zero_add] at hscan
  unfold validate
  cases hd : p.firstDefect? 0 p.uops with
  | none => exact iff_of_true rfl (hscan.mp hd)
  | some m =>
    simp only [reduceCtorEq, false_iff]
    intro h
    exact absurd (hscan.mpr h) (by simp [hd])

theorem defect?_eq_none {pc : Nat} {u : Uop} (h : p.defect? pc u = none) :
    (∀ s ∈ u.src, s < pc) ∧ (u.kind.isVoid = false → ∃ d, u.dtype = some d) ∧
      takes u (p.valueOperands u).length = true ∧
      (u.kind = .endLoop → ∀ l r, u.src = l :: r → p.isLoopAt l = true) := by
  unfold defect? at h
  dsimp only at h
  split at h
  · cases h
  · rename_i hsrc
    split at h
    · cases h
    · rename_i htype
      split at h
      · cases h
      · rename_i hcount
        refine ⟨?_, ?_, by simpa using hcount, ?_⟩
        · intro s hs
          have := List.find?_eq_none.mp hsrc s hs
          simpa using this
        · intro hvoid
          cases hd : u.dtype with
          | some d => exact ⟨d, rfl⟩
          | none => simp [hvoid, hd] at htype
        · intro hk l r hl
          rw [hk, hl] at h
          cases hloop : p.isLoopAt l with
          | true => rfl
          | false => simp [hloop] at h

theorem accepted_of_validate (h : p.validate = .ok ()) : p.Accepted where
  src_lt hu hs := (defect?_eq_none (validate_eq_ok.mp h _ _ hu)).1 _ hs
  typed hu := (defect?_eq_none (validate_eq_ok.mp h _ _ hu)).2.1
  arity hu := (defect?_eq_none (validate_eq_ok.mp h _ _ hu)).2.2.1
  endLoop := by
    intro pc u hu hk
    obtain ⟨-, -, hcount, hloop⟩ := defect?_eq_none (validate_eq_ok.mp h _ _ hu)
    have hone : u.src.length = 1 := by simpa [takes, hk] using hcount
    obtain ⟨l, hl⟩ := List.length_eq_one_iff.mp hone
    exact ⟨l, hl, hloop hk l [] hl⟩

theorem isLoopAt_iff {l : Nat} : p.isLoopAt l = true ↔ ∃ u, p.get? l = some u ∧ u.kind = .loop := by
  unfold isLoopAt
  cases p.get? l with
  | none => simp
  | some u => simp

theorem isLoopAt_of_kind {l : Nat} {u : Uop} (hu : p.get? l = some u) (hk : u.kind = .loop) :
    p.isLoopAt l = true :=
  isLoopAt_iff.mpr ⟨u, hu, hk⟩

theorem kind_of_isLoopAt {l : Nat} {u : Uop} (h : p.isLoopAt l = true) (hu : p.get? l = some u) :
    u.kind = .loop := by
  obtain ⟨u', hu', hk⟩ := isLoopAt_iff.mp h
  obtain rfl : u = u' := Option.some.inj (hu.symm.trans hu')
  exact hk

theorem mem_valueOperands {u : Uop} {s : Nat} :
    s ∈ p.valueOperands u ↔ s ∈ u.src ∧ p.isVoidAt s = false := by
  simp [valueOperands]

/-- A value operand is an earlier instruction that leaves values. -/
theorem Accepted.of_mem_valueOperands (hp : p.Accepted) {pc s : Nat} {u : Uop}
    (hu : p.get? pc = some u) (hs : s ∈ p.valueOperands u) :
    s < pc ∧ ∃ v, p.get? s = some v ∧ v.kind.isVoid = false := by
  obtain ⟨hsrc, hvoid⟩ := mem_valueOperands.mp hs
  have hlt : s < pc := hp.src_lt hu hsrc
  have hlength : s < p.length := Nat.lt_trans hlt (List.getElem?_eq_some_iff.mp hu).1
  refine ⟨hlt, p.uops[s], List.getElem?_eq_getElem hlength, ?_⟩
  simpa [isVoidAt, get?, List.getElem?_eq_getElem hlength] using hvoid

theorem isVoidAt_of_isLoopAt {l : Nat} (h : p.isLoopAt l = true) : p.isVoidAt l = false := by
  obtain ⟨u, hu, hk⟩ := isLoopAt_iff.mp h
  simp [isVoidAt, hu, hk, Kind.isVoid]

theorem get?_lt_length {pc : Nat} {u : Uop} (h : p.get? pc = some u) : pc < p.length :=
  (List.getElem?_eq_some_iff.mp h).1

/-- Copies one element per grid point. -/
def copy : Program where
  uops :=
    [⟨.defineGlobal, some (.scalar (.int .int8)), [], .name "out"⟩,
     ⟨.defineGlobal, some (.scalar (.int .int8)), [], .name "in"⟩,
     ⟨.special, some (.scalar (.int .int32)), [], .axis 0 "gidx0"⟩,
     ⟨.load, some (.scalar (.int .int8)), [1, 2], .none⟩,
     ⟨.store, none, [0, 2, 3], .none⟩]

end Lockstep.Program
