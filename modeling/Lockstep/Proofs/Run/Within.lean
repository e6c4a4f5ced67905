import Lockstep.Proofs.Run.Typed

/-!
# Runs within a range of positions

A stretch of a run during which control keeps to a range of positions, what such
stretches leave alone, and the part of the history they make up.
-/

namespace Lockstep

/-- So many instructions lead from the first context to the second, and each of
them leaves control within the range. -/
inductive Within (p : Program) (a b : Nat) (c : Context) : Nat → Context → Prop where
  | start : Within p a b c 0 c
  | step {n : Nat} {x y : Context} (h : Within p a b c n x) (hs : Steps p x y) (ha : a ≤ y.pc)
      (hb : y.pc ≤ b) : Within p a b c (n + 1) y

namespace Within

variable {p : Program} {a b a' b' n m : Nat} {c x y : Context}

theorem mono (h : Within p a b c n x) (ha : a' ≤ a) (hb : b ≤ b') : Within p a' b' c n x := by
  induction h with
  | start => exact .start
  | step h hs ha' hb' ih => exact .step ih hs (Nat.le_trans ha ha') (Nat.le_trans hb' hb)

theorem append (h : Within p a b c n x) (h' : Within p a b x m y) :
    Within p a b c (n + m) y := by
  induction h' with
  | start => exact h
  | step h' hs ha hb ih => exact .step ih hs ha hb

theorem bounds (h : Within p a b c n x) (ha : a ≤ c.pc) (hb : c.pc ≤ b) :
    a ≤ x.pc ∧ x.pc ≤ b := by
  cases h with
  | start => exact ⟨ha, hb⟩
  | step h hs ha' hb' => exact ⟨ha', hb'⟩

theorem warp (h : Within p a b c n x) : x.warp = c.warp := by
  induction h with
  | start => rfl
  | step h hs ha hb ih => rw [hs.warp, ih]

theorem instructions (h : Within p a b c n x) : x.instructions = c.instructions + n := by
  induction h with
  | start => rfl
  | step h hs ha hb ih => rw [hs.instructions, ih, Nat.add_assoc]

/-- A value from before the range stays. -/
theorem values_mono (h : Within p a b c n x) (ha : a ≤ c.pc) {q : Nat} (hq : q < a)
    (hv : c.values.get? q ≠ none) : x.values.get? q ≠ none := by
  induction h with
  | start => exact hv
  | @step n x y h hs ha' hb' ih =>
    have hle : a ≤ x.pc := by
      cases h with
      | start => exact ha
      | step h hs ha' hb' => exact ha'
    exact hs.values_mono (.inl (by omega)) ih

theorem typed (h : Within p a b c n x) (ht : c.Typed) : x.Typed := by
  induction h with
  | start => exact ht
  | step h hs ha hb ih => exact hs.typed ih

/-- The first part of a stretch keeps to the range as well. -/
theorem left (h : Within p a b c (n + m) x) : ∃ y, Within p a b c n y := by
  induction m generalizing x with
  | zero => exact ⟨x, h⟩
  | succ m ih =>
    cases h with
    | step h hs ha hb => exact ih h

/-- The context is the one at which a run of so many instructions is cut off. -/
theorem run_add (h : Within p a b c n x) (m : Nat) : run p (n + m) c = run p m x := by
  induction h generalizing m with
  | start => rw [Nat.zero_add]
  | @step n x y h hs ha hb ih =>
    rw [Nat.add_right_comm, Nat.add_assoc, ih (m + 1), run_succ_of_steps hs]

theorem eq_run (h : Within p a b c n x) : x = (run p n c).1 := by
  have := h.run_add 0
  rw [Nat.add_zero] at this
  rw [this, run]

end Within

/-! ## History -/

variable {p : Program} {a b n : Nat} {c x y : Context}

/-- The moment of the step at a context. -/
def moment (p : Program) (c : Context) : Moment := ⟨c, (step p c).1, (step p c).2⟩

theorem history_one (p : Program) (c : Context) : history p 1 c = [moment p c] := by
  obtain ⟨c', r, hs⟩ : ∃ c' r, step p c = (c', r) := ⟨_, _, rfl⟩
  rw [history, moment, hs]
  rcases r with f | k
  · rfl
  · cases k <;> rfl

theorem Steps.history_succ (hs : Steps p x y) (m : Nat) :
    history p (m + 1) x = moment p x :: history p m y := by
  obtain ⟨x', k, hs, hne, rfl⟩ := hs
  rw [history, moment, hs]
  cases k with
  | halt => exact absurd rfl hne
  | proceed => rfl
  | jump t => rfl

theorem Within.history_add (h : Within p a b c n x) (m : Nat) :
    history p (n + m) c = history p n c ++ history p m x := by
  induction h generalizing m with
  | start => rw [Nat.zero_add, history, List.nil_append]
  | @step n x y h hs ha hb ih =>
    rw [Nat.add_right_comm, Nat.add_assoc, ih (m + 1), ih 1, hs.history_succ m, history_one,
      List.append_assoc, List.singleton_append]

/-- The history of a stretch of a run ends with its last step. -/
theorem Within.history_succ (h : Within p a b c n x) :
    history p (n + 1) c = history p n c ++ [moment p x] := by
  rw [h.history_add, history_one]

end Lockstep
