import Lockstep.Proofs.Step.Produce
import Lockstep.Run

/-!
# Reachable contexts

A run as a relation: one instruction that goes on, several of them, and the
contexts a run arrives at together with the position it comes from.
-/

namespace Lockstep

namespace Context

@[simp] theorem follow_values (c : Context) (k : Control) : (c.follow k).values = c.values := by
  cases k <;> rfl

@[simp] theorem follow_types (c : Context) (k : Control) : (c.follow k).types = c.types := by
  cases k <;> rfl

@[simp] theorem follow_warp (c : Context) (k : Control) : (c.follow k).warp = c.warp := by
  cases k <;> rfl

@[simp] theorem follow_memory (c : Context) (k : Control) : (c.follow k).memory = c.memory := by
  cases k <;> rfl

@[simp] theorem follow_instructions (c : Context) (k : Control) :
    (c.follow k).instructions = c.instructions := by
  cases k <;> rfl

end Context

/-- One instruction of a run that neither fails nor halts. -/
def Steps (p : Program) (c d : Context) : Prop :=
  ∃ c' k, step p c = (c', .ok k) ∧ k ≠ .halt ∧ d = c'.follow k

/-- The step at a context fails. -/
def Fails (p : Program) (c : Context) : Prop :=
  ∃ c' f, step p c = (c', .error f)

/-- A run from the first context arrives at the second. The position is that of
the instruction executed last. -/
inductive Arrives (p : Program) (c₀ : Context) : Option Nat → Context → Prop where
  | start : Arrives p c₀ none c₀
  | step {o : Option Nat} {c d : Context} (h : Arrives p c₀ o c) (hs : Steps p c d) :
      Arrives p c₀ (some c.pc) d

variable {p : Program} {c d : Context}

theorem steps_of_proceed (h : step p c = (d, .ok .proceed)) : Steps p c (d.follow .proceed) :=
  ⟨d, .proceed, h, by simp, rfl⟩

theorem steps_of_jump {pc : Nat} (h : step p c = (d, .ok (.jump pc))) :
    Steps p c (d.follow (.jump pc)) :=
  ⟨d, .jump pc, h, by simp, rfl⟩

theorem Steps.det {d' : Context} (h : Steps p c d) (h' : Steps p c d') : d = d' := by
  obtain ⟨c₁, k, hs, -, rfl⟩ := h
  obtain ⟨c₂, k', hs', -, rfl⟩ := h'
  rw [hs] at hs'
  obtain ⟨rfl, hk⟩ := Prod.mk.inj hs'
  cases hk
  rfl

theorem Steps.not_fails (h : Steps p c d) : ¬ Fails p c := by
  rintro ⟨c', f, hf⟩
  obtain ⟨c₁, k, hs, -, rfl⟩ := h
  rw [hs] at hf
  cases hf

/-- Every instruction is counted. -/
theorem Steps.instructions (h : Steps p c d) : d.instructions = c.instructions + 1 := by
  obtain ⟨c', k, hs, hne, rfl⟩ := h
  rw [Context.follow_instructions]
  cases fires_of_step hs with
  | halt hu => exact absurd rfl hne
  | produce hu hk hd hg hp => rw [(makes_of_produce hk hp).instructions_eq]; rfl
  | _ => rfl

theorem Fires.warp_eq {k : Control} (h : Fires p c d k) : d.warp = c.warp := by
  cases h with
  | produce hu hk hd hg hp => exact (makes_of_produce hk hp).warp_eq
  | _ => rfl

/-- An instruction that neither defines a buffer nor stores leaves the memory as
it is. -/
theorem Steps.memory {u : Uop} (h : Steps p c d) (hu : p.get? c.pc = some u)
    (hk : u.kind.changesMemory = false) : d.memory = c.memory := by
  obtain ⟨c', k, hs, -, rfl⟩ := h
  rw [Context.follow_memory]
  cases fires_of_step hs with
  | @store v ops ws m hv hkind hg hw hm =>
    rw [hu] at hv
    cases hv
    simp [hkind, Kind.changesMemory] at hk
  | @produce v t ops c' hv hprod hd hg hp =>
    rw [hu] at hv
    cases hv
    exact (makes_of_produce hprod hp).memory_eq hk
  | _ => rfl

/-- No other entry of the table of values changes. -/
theorem Steps.values_eq {u : Uop} (h : Steps p c d) (hu : p.get? c.pc = some u) {q : Nat}
    (hq : ¬ p.Defines u c.pc q) : d.values.get? q = c.values.get? q := by
  have hne : q ≠ c.pc := fun he => hq (.inl he)
  obtain ⟨c', k, hs, -, rfl⟩ := h
  rw [Context.follow_values]
  cases fires_of_step hs with
  | @produce v t ops c' hv hprod hd hg hp =>
    rw [hu] at hv
    cases hv
    exact (makes_of_produce hprod hp).values_eq hq
  | enter hv hk hd hg hn hv hw => exact Table.get?_insert_of_ne _ hne _
  | again hv hk hd hg hn hi hv hr => exact Table.get?_insert_of_ne _ hne _
  | leave hv hk hd hg hn hi hv hr he => exact Table.get?_erase_of_ne _ hne
  | _ => rfl

theorem Steps.makes {u : Uop} (h : Steps p c d) (hu : p.get? c.pc = some u)
    (hk : u.kind.isProducer = true) :
    ∃ t ops d', u.dtype = some t ∧ gather p u c = .ok ops ∧
      Makes p u t (c.counted.declared t) ops d' ∧ d = d'.follow .proceed := by
  obtain ⟨c', k, hs, -, rfl⟩ := h
  obtain ⟨t, ops, hd, hg, hm, rfl⟩ := (fires_of_step hs).makes hu hk
  exact ⟨t, ops, c', hd, hg, hm, rfl⟩

theorem Steps.warp (h : Steps p c d) : d.warp = c.warp := by
  obtain ⟨c', k, hs, hne, rfl⟩ := h
  rw [Context.follow_warp, (fires_of_step hs).warp_eq]

theorem Arrives.warp {c₀ : Context} {o : Option Nat} (h : Arrives p c₀ o c) : c.warp = c₀.warp := by
  induction h with
  | start => rfl
  | step h hs ih => rw [hs.warp, ih]

/-- A run goes on, fails or halts, and it halts only past the end. -/
theorem steps_or_fails (hpc : c.pc < p.length) : (∃ d, Steps p c d) ∨ Fails p c := by
  obtain ⟨c', r, hs⟩ : ∃ c' r, step p c = (c', r) := ⟨_, _, rfl⟩
  cases r with
  | error f => exact .inr ⟨c', f, hs⟩
  | ok k =>
    refine .inl ⟨c'.follow k, c', k, hs, ?_, rfl⟩
    rintro rfl
    cases fires_of_step hs with
    | halt hu => simp [Program.get?, Program.length] at hu hpc; omega

theorem run_succ_of_steps (h : Steps p c d) (n : Nat) : run p (n + 1) c = run p n d := by
  obtain ⟨c', k, hs, hne, rfl⟩ := h
  rw [run, hs]
  cases k with
  | halt => exact absurd rfl hne
  | _ => rfl

theorem run_succ_of_fails (h : Fails p c) (n : Nat) :
    ∃ f, (run p (n + 1) c).2 = .failed f := by
  obtain ⟨c', f, hs⟩ := h
  exact ⟨f, by rw [run, hs]⟩

/-- A run that fails at once neither goes on nor halts. -/
theorem run_of_fails (h : Fails p c) :
    (∀ n, (run p (n + 1) c).2 ≠ .unfinished) ∧ ∀ n d, run p n c ≠ (d, .halted) := by
  refine ⟨?_, ?_⟩
  · intro n
    obtain ⟨f, hfail⟩ := run_succ_of_fails h n
    simp [hfail]
  · intro n d hn
    cases n with
    | zero => cases hn
    | succ n =>
      obtain ⟨f, hfail⟩ := run_succ_of_fails h n
      simp [hn] at hfail

theorem run_succ_of_le_pc (h : p.length ≤ c.pc) (n : Nat) :
    run p (n + 1) c = (c, .halted) := by
  have hnone : p.get? c.pc = none := List.getElem?_eq_none h
  rw [run, step, hnone]

theorem goes_on_of_unfinished {n : Nat} (h : (run p (n + 1) c).2 = .unfinished) :
    ∃ d, Steps p c d := by
  by_cases hpc : c.pc < p.length
  · rcases steps_or_fails hpc with hs | hf
    · exact hs
    · obtain ⟨f, hend⟩ := run_succ_of_fails hf n
      simp [hend] at h
  · simp [run_succ_of_le_pc (Nat.le_of_not_lt hpc) n] at h

/-- A run that is cut off has gone on one instruction at a time. -/
theorem steps_of_unfinished {n : Nat} (h : (run p (n + 1) c).2 = .unfinished) :
    (run p n c).2 = .unfinished ∧ Steps p (run p n c).1 (run p (n + 1) c).1 := by
  induction n generalizing c with
  | zero =>
    obtain ⟨d, hs⟩ := goes_on_of_unfinished h
    rw [run_succ_of_steps hs]
    exact ⟨rfl, hs⟩
  | succ n ih =>
    obtain ⟨d, hs⟩ := goes_on_of_unfinished h
    rw [run_succ_of_steps hs] at h
    rw [run_succ_of_steps hs n, run_succ_of_steps hs (n + 1)]
    exact ih h

theorem unfinished_of_le {n m : Nat} (h : (run p m c).2 = .unfinished) (hle : n ≤ m) :
    (run p n c).2 = .unfinished := by
  induction m with
  | zero =>
    obtain rfl : n = 0 := Nat.le_zero.mp hle
    rfl
  | succ m ih =>
    rcases Nat.lt_or_eq_of_le hle with hlt | rfl
    · exact ih (steps_of_unfinished h).1 (Nat.le_of_lt_succ hlt)
    · exact h

/-- A run that is cut off goes on from there. -/
theorem run_add_of_unfinished {n : Nat} (h : (run p n c).2 = .unfinished) (m : Nat) :
    run p (n + m) c = run p m (run p n c).1 := by
  induction n generalizing m with
  | zero =>
    rw [Nat.zero_add]
    rfl
  | succ n ih =>
    obtain ⟨hn, hs⟩ := steps_of_unfinished h
    rw [Nat.add_right_comm, Nat.add_assoc, ih hn (m + 1), run_succ_of_steps hs]

theorem arrives_of_unfinished {n : Nat} (h : (run p (n + 1) c).2 = .unfinished) :
    Arrives p c (some (run p n c).1.pc) (run p (n + 1) c).1 := by
  induction n with
  | zero => exact .step .start (steps_of_unfinished h).2
  | succ n ih => exact .step (ih (steps_of_unfinished h).1) (steps_of_unfinished h).2

theorem exists_arrives_of_unfinished {n : Nat} (h : (run p n c).2 = .unfinished) :
    ∃ o, Arrives p c o (run p n c).1 := by
  cases n with
  | zero => exact ⟨none, .start⟩
  | succ n => exact ⟨_, arrives_of_unfinished h⟩

end Lockstep
