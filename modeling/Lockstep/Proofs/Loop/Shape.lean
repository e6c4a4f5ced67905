import Lockstep.Proofs.Program.WellFormed

/-!
# The shape of loops

Which end belongs to which loop, and what it means that loops are properly
nested.
-/

namespace Lockstep.Program

/-- The instruction at `e` is the end of a loop and names the one at `l`. -/
def EndsLoop (p : Program) (e l : Nat) : Prop :=
  ∃ u, p.get? e = some u ∧ u.kind = .endLoop ∧ l ∈ u.src

/-- There is a loop at `l`, and `e` is an end of it. -/
def Spans (p : Program) (l e : Nat) : Prop :=
  p.isLoopAt l = true ∧ p.EndsLoop e l

/-- No loop is the accumulator of a phi. -/
def PhisSpareLoops (p : Program) : Prop :=
  ∀ pc u a, p.get? pc = some u → u.kind = .phi → (p.valueOperands u).head? = some a →
    p.isLoopAt a = false

/-- No loop has two ends. -/
def EndsUnique (p : Program) : Prop :=
  ∀ l e e', p.EndsLoop e l → p.EndsLoop e' l → e = e'

/-- Every loop has exactly one end, and the intervals of two loops are disjoint
or nested. -/
structure ProperlyNested (p : Program) : Prop where
  closed : ∀ l, p.isLoopAt l = true → ∃ e, p.EndsLoop e l
  unique : p.EndsUnique
  nested : ∀ l e l' e', p.Spans l e → p.Spans l' e' →
    e < l' ∨ e' < l ∨ (l ≤ l' ∧ e' ≤ e) ∨ (l' ≤ l ∧ e ≤ e')
  phis : p.PhisSpareLoops

/-- The loop at a position counts in integers. -/
def CountsInts (p : Program) (l : Nat) : Prop :=
  ∀ u, p.get? l = some u → u.kind = .loop → ∃ t, u.dtype = some (.scalar (.int t))

variable {p : Program}

theorem Accepted.isLoopAt_of_endsLoop (hp : p.Accepted) {e l : Nat} (h : p.EndsLoop e l) :
    p.isLoopAt l = true := by
  obtain ⟨u, hu, hk, hl⟩ := h
  obtain ⟨l', hl', hloop⟩ := hp.endLoop hu hk
  rw [hl', List.mem_singleton] at hl
  rw [hl]
  exact hloop

theorem Accepted.spans_of_endsLoop (hp : p.Accepted) {e l : Nat} (h : p.EndsLoop e l) :
    p.Spans l e :=
  ⟨hp.isLoopAt_of_endsLoop h, h⟩

theorem Accepted.lt_of_endsLoop (hp : p.Accepted) {e l : Nat} (h : p.EndsLoop e l) : l < e := by
  obtain ⟨u, hu, -, hl⟩ := h
  exact hp.src_lt hu hl

/-- The end of a loop names no second one. -/
theorem Accepted.endsLoop_inj (hp : p.Accepted) {e l l' : Nat} (h : p.EndsLoop e l)
    (h' : p.EndsLoop e l') : l = l' := by
  obtain ⟨u, hu, hk, hl⟩ := h
  obtain ⟨u', hu', -, hl'⟩ := h'
  obtain rfl : u = u' := Option.some.inj (hu.symm.trans hu')
  obtain ⟨m, hm, -⟩ := hp.endLoop hu hk
  rw [hm, List.mem_singleton] at hl hl'
  rw [hl, hl']

theorem endsLoop_of_close {u : Uop} {pc l : Nat} {r : List Nat}
    (hu : p.get? pc = some u) (hk : u.kind = .endLoop) (hs : u.src = l :: r) :
    p.EndsLoop pc l :=
  ⟨u, hu, hk, by rw [hs]; exact List.mem_cons_self⟩

theorem EndsLoop.kind {e l : Nat} {u : Uop} (h : p.EndsLoop e l) (hu : p.get? e = some u) :
    u.kind = .endLoop := by
  obtain ⟨u', hu', hk, -⟩ := h
  obtain rfl : u = u' := Option.some.inj (hu.symm.trans hu')
  exact hk

theorem not_isLoopAt_of_endsLoop {e l : Nat} (h : p.EndsLoop e l) : p.isLoopAt e = false := by
  obtain ⟨u, hu, hk, -⟩ := h
  simp [isLoopAt, hu, hk]

theorem EndsLoop.ne_of_isLoopAt {e l q : Nat} (h : p.EndsLoop e l) (hq : p.isLoopAt q = true) :
    q ≠ e := by
  rintro rfl
  rw [not_isLoopAt_of_endsLoop h] at hq
  cases hq

/-- Of two loops one is nested strictly inside the other, or they are apart. -/
theorem ProperlyNested.strict (hn : p.ProperlyNested) (hp : p.Accepted) {l e l' e' : Nat}
    (h : p.Spans l e) (h' : p.Spans l' e') (hne : l ≠ l') :
    e < l' ∨ e' < l ∨ (l < l' ∧ e' < e) ∨ (l' < l ∧ e < e') := by
  have hee : e ≠ e' := by
    rintro rfl
    exact hne (hp.endsLoop_inj h.2 h'.2)
  have := hn.nested l e l' e' h h'
  omega

/-! ## The shape can be computed -/

/-- The loops that the instruction at a position names as their end. -/
def endedAt (p : Program) (e : Nat) : List Nat :=
  match p.get? e with
  | some u => if u.kind = .endLoop then u.src else []
  | none => []

theorem endsLoop_iff_mem {e l : Nat} : p.EndsLoop e l ↔ l ∈ p.endedAt e := by
  unfold EndsLoop endedAt
  cases p.get? e with
  | none => simp
  | some u => by_cases hk : u.kind = .endLoop <;> simp [hk]

theorem EndsLoop.lt_length {e l : Nat} (h : p.EndsLoop e l) : e < p.length := by
  obtain ⟨u, hu, -⟩ := h
  exact get?_lt_length hu

theorem endsUnique_iff : p.EndsUnique ↔
    ∀ e < p.length, ∀ e' < p.length, ∀ l ∈ p.endedAt e, l ∈ p.endedAt e' → e = e' := by
  constructor
  · intro h e _ e' _ l hl hl'
    exact h l e e' (endsLoop_iff_mem.mpr hl) (endsLoop_iff_mem.mpr hl')
  · intro h l e e' hl hl'
    exact h e hl.lt_length e' hl'.lt_length l (endsLoop_iff_mem.mp hl) (endsLoop_iff_mem.mp hl')

theorem phisSpareLoops_iff : p.PhisSpareLoops ↔
    ∀ u ∈ p.uops, u.kind = .phi → ∀ a ∈ (p.valueOperands u).head?, p.isLoopAt a = false := by
  constructor
  · intro h u hu hk a ha
    obtain ⟨pc, hpc⟩ := List.mem_iff_getElem?.mp hu
    exact h pc u a hpc hk ha
  · intro h pc u a hu hk ha
    exact h u (List.mem_of_getElem? hu) hk a ha

/-- The loops that end at two positions are apart, or one is in the other. -/
def NestAt (p : Program) (e e' : Nat) : Prop :=
  ∀ l ∈ p.endedAt e, ∀ l' ∈ p.endedAt e', p.isLoopAt l = true → p.isLoopAt l' = true →
    e < l' ∨ e' < l ∨ (l ≤ l' ∧ e' ≤ e) ∨ (l' ≤ l ∧ e ≤ e')

instance (e e' : Nat) : Decidable (p.NestAt e e') :=
  inferInstanceAs (Decidable (∀ l ∈ p.endedAt e, ∀ l' ∈ p.endedAt e', p.isLoopAt l = true →
    p.isLoopAt l' = true → e < l' ∨ e' < l ∨ (l ≤ l' ∧ e' ≤ e) ∨ (l' ≤ l ∧ e ≤ e')))

theorem properlyNested_iff : p.ProperlyNested ↔
    (∀ l < p.length, p.isLoopAt l = true → ∃ e ∈ List.range p.length, l ∈ p.endedAt e) ∧
      p.EndsUnique ∧
      (∀ e < p.length, ∀ e' < p.length, p.NestAt e e') ∧
      p.PhisSpareLoops := by
  constructor
  · intro h
    refine ⟨?_, h.unique, ?_, h.phis⟩
    · intro l _ hl
      obtain ⟨e, he⟩ := h.closed l hl
      exact ⟨e, List.mem_range.mpr he.lt_length, endsLoop_iff_mem.mp he⟩
    · intro e _ e' _ l hl l' hl' hloop hloop'
      exact h.nested l e l' e' ⟨hloop, endsLoop_iff_mem.mpr hl⟩
        ⟨hloop', endsLoop_iff_mem.mpr hl'⟩
  · rintro ⟨hclosed, hunique, hnested, hphis⟩
    refine ⟨?_, hunique, ?_, hphis⟩
    · intro l hl
      obtain ⟨u, hu, -⟩ := isLoopAt_iff.mp hl
      obtain ⟨e, -, he⟩ := hclosed l (get?_lt_length hu) hl
      exact ⟨e, endsLoop_iff_mem.mpr he⟩
    · intro l e l' e' hl hl'
      exact hnested e hl.2.lt_length e' hl'.2.lt_length l (endsLoop_iff_mem.mp hl.2) l'
        (endsLoop_iff_mem.mp hl'.2) hl.1 hl'.1

instance (p : Program) : Decidable p.EndsUnique := decidable_of_iff _ endsUnique_iff.symm

instance (p : Program) : Decidable p.PhisSpareLoops := decidable_of_iff _ phisSpareLoops_iff.symm

instance (p : Program) : Decidable p.ProperlyNested := decidable_of_iff _ properlyNested_iff.symm

/-- A loop that counts 0 and 1 and does nothing else. -/
def twoRounds : Program where
  uops :=
    [⟨.const, some (.scalar (.int .int32)), [], .literal (.int 0)⟩,
     ⟨.const, some (.scalar (.int .int32)), [], .literal (.int 2)⟩,
     ⟨.loop, some (.scalar (.int .int32)), [0, 1], .none⟩,
     ⟨.endLoop, none, [2], .none⟩]

end Lockstep.Program
