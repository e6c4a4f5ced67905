import Lockstep.Proofs.Memory.Integers
import Lockstep.Proofs.Run.Ends

/-!
# Programs that end with a store

A program whose last instruction stores integers to the first buffer. It halts with all
of them in place, or fails with those in place that come before the first that does not
fit.
-/

namespace Lockstep

/-- In front of the last instruction, a store that is to write the entries to the first
buffer. -/
structure StoresLast (p : Program) (t : IntType) (b : Buffer) (rest : List Buffer)
    (es : List (Nat × Int)) (c : Context) : Prop where
  last : p.get? (c.pc + 1) = none
  globals : c.memory.globals = b :: rest
  store : ∃ ws, List.Forall₂ (Memory.Stores (.global 0) t) ws es ∧
    ∀ m r, c.memory.perform ws = (m, r) →
      step p c = ({ c.counted with memory := m }, r.map fun _ => .proceed)

namespace StoresLast

variable {p : Program} {t : IntType} {b : Buffer} {rest : List Buffer} {es : List (Nat × Int)}
  {c : Context} {i k : Nat} {x : Int}

theorem buffer?_eq (h : StoresLast p t b rest es c) : c.memory.buffer? (.global 0) = some b := by
  rw [Memory.buffer?, h.globals]
  rfl

theorem globals_setBuffer (h : StoresLast p t b rest es c) (b' : Buffer) :
    (c.memory.setBuffer (.global 0) b').globals = b' :: rest := by
  change c.memory.globals.set 0 b' = _
  rw [h.globals]
  rfl

/-- If all entries fit, the program halts with them in place. -/
theorem ends_of_contains (h : StoresLast p t b rest es c)
    (hin : ∀ e ∈ es, e.1 < b.lengthAs (.int t)) (hfit : ∀ e ∈ es, t.contains e.2 = true) :
    ∃ d, d.memory.globals = b.setInts t es :: rest ∧ Ends p c 1 d .halted := by
  obtain ⟨ws, hws, hstep⟩ := h.store
  have hperform := Memory.perform_of_contains hws h.buffer?_eq hin hfit
  exact ⟨_, h.globals_setBuffer _, .go (steps_of_proceed (hstep _ _ hperform)) (.halt h.last)⟩

/-- If not, it fails at the first that does not fit. -/
theorem ends_of_not_contains (h : StoresLast p t b rest es c)
    (hin : ∀ e ∈ es, e.1 < b.lengthAs (.int t)) (hk : es[k]? = some (i, x))
    (hx : t.contains x = false) (hfit : ∀ e ∈ es.take k, t.contains e.2 = true) :
    ∃ d, d.memory.globals = b.setInts t (es.take k) :: rest ∧
      Ends p c 1 d (.failed (Memory.misfit t x)) := by
  obtain ⟨ws, hws, hstep⟩ := h.store
  have hperform := Memory.perform_of_not_contains hws h.buffer?_eq hin hk hx hfit
  exact ⟨_, h.globals_setBuffer _, .fail (hstep _ _ hperform)⟩

end StoresLast

end Lockstep
