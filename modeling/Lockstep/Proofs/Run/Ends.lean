import Lockstep.Proofs.Run.Reach
import Lockstep.Proofs.Step.Failure

/-!
# Runs that end

How a run ends, and after how many instructions, as a relation that does without a
limit. A run to more instructions than that ends in just this way, and a run that is
not cut off has ended in it.
-/

namespace Lockstep

/-- From the first context so many instructions are executed, the last of which
leaves the second: control is past the end of the program then, or that instruction
fails. -/
inductive Ends (p : Program) : Context → Nat → Context → Ending → Prop where
  | halt {c : Context} (hu : p.get? c.pc = none) : Ends p c 0 c .halted
  | fail {c d : Context} {f : Fault} (hs : step p c = (d, .error f)) : Ends p c 1 d (.failed f)
  | go {c d e : Context} {n : Nat} {r : Ending} (hs : Steps p c d) (h : Ends p d n e r) :
      Ends p c (n + 1) e r

/-- So many instructions lead from the first context to the second. -/
inductive Leads (p : Program) : Nat → Context → Context → Prop where
  | refl {c : Context} : Leads p 0 c c
  | step {n : Nat} {c d e : Context} (hs : Steps p c d) (h : Leads p n d e) : Leads p (n + 1) c e

variable {p : Program} {c d e : Context} {f : Fault} {m n : Nat} {r : Ending}

/-- Every instruction is counted, one that fails as well. -/
theorem Breaks.instructions (h : Breaks p c d f) : d.instructions = c.instructions + 1 := by
  cases h <;> rfl

namespace Ends

theorem ne_unfinished (h : Ends p c n d r) : r ≠ .unfinished := by
  induction h with
  | go _ _ ih => exact ih
  | _ => rintro ⟨⟩

theorem instructions (h : Ends p c n d r) : d.instructions = c.instructions + n := by
  induction h with
  | halt hu => rfl
  | fail hs => exact (breaks_of_step hs).instructions
  | go hs h ih =>
    rw [ih, hs.instructions]
    omega

theorem run_eq (h : Ends p c n d r) {limit : Nat} (hlimit : n < limit) :
    run p limit c = (d, r) := by
  induction h generalizing limit with
  | @halt c hu =>
    obtain ⟨m, rfl⟩ : ∃ m, limit = m + 1 := ⟨limit - 1, by omega⟩
    rw [run, step, hu]
  | fail hs =>
    obtain ⟨m, rfl⟩ : ∃ m, limit = m + 1 := ⟨limit - 1, by omega⟩
    rw [run, hs]
  | go hs h ih =>
    obtain ⟨m, rfl⟩ : ∃ m, limit = m + 1 := ⟨limit - 1, by omega⟩
    rw [run_succ_of_steps hs]
    exact ih (by omega)

/-- A run ends in one way. -/
theorem det {n' : Nat} {d' : Context} {r' : Ending} (h : Ends p c n d r)
    (h' : Ends p c n' d' r') : n = n' ∧ d = d' ∧ r = r' := by
  have hrun := h.run_eq (Nat.lt_succ_of_le (Nat.le_max_left n n'))
  rw [h'.run_eq (Nat.lt_succ_of_le (Nat.le_max_right n n'))] at hrun
  obtain ⟨rfl, rfl⟩ := Prod.mk.inj hrun
  have hcount := h.instructions
  rw [h'.instructions] at hcount
  exact ⟨by omega, rfl, rfl⟩

end Ends

namespace Leads

theorem one (hs : Steps p c d) : Leads p 1 c d :=
  .step hs .refl

theorem trans (h : Leads p m c d) (h' : Leads p n d e) : Leads p (m + n) c e := by
  induction h with
  | refl => rwa [Nat.zero_add]
  | step hs h ih =>
    rw [Nat.succ_add]
    exact .step hs (ih h')

/-- A run ends as it does from wherever it leads. -/
theorem ends (h : Leads p m c d) (h' : Ends p d n e r) : Ends p c (n + m) e r := by
  induction h with
  | refl => exact h'
  | step hs h ih => exact .go hs (ih h')

end Leads

/-- A run that is not cut off has ended. -/
theorem ends_of_run {limit : Nat} (h : run p limit c = (d, r)) (hr : r ≠ .unfinished) :
    ∃ n, Ends p c n d r := by
  induction limit generalizing c with
  | zero =>
    cases h
    exact absurd rfl hr
  | succ limit ih =>
    by_cases hpc : c.pc < p.length
    · rcases steps_or_fails hpc with ⟨e, hs⟩ | ⟨e, f, hs⟩
      · rw [run_succ_of_steps hs] at h
        obtain ⟨n, hends⟩ := ih h
        exact ⟨n + 1, .go hs hends⟩
      · rw [run, hs] at h
        cases h
        exact ⟨1, .fail hs⟩
    · have hle : p.length ≤ c.pc := Nat.le_of_not_lt hpc
      rw [run_succ_of_le_pc hle] at h
      cases h
      exact ⟨0, .halt (List.getElem?_eq_none hle)⟩

/-- A run ends, or it is cut off at every limit. -/
theorem ends_or_goes_on (p : Program) (c : Context) :
    (∃ n d r, Ends p c n d r) ∨ ∀ limit, (run p limit c).2 = .unfinished := by
  by_cases h : ∀ limit, (run p limit c).2 = .unfinished
  · exact .inr h
  · obtain ⟨limit, hlimit⟩ := not_forall.mp h
    obtain ⟨n, hends⟩ := ends_of_run rfl hlimit
    exact .inl ⟨n, _, _, hends⟩

end Lockstep
