import Lockstep.Proofs.Memory.Extends
import Lockstep.Proofs.Run.Typed
import Lockstep.Proofs.Step.Compute

/-!
# What a step leaves alone

A step that does not fail stays at its position, counts one instruction and changes only
what belongs to the kind of its instruction. `Uop.Keeps` says what everything else is.
-/

namespace Lockstep

/-- An instruction with a value may change the entry of its own position; a phi also that
of the accumulator. -/
def Program.Owns (p : Program) (u : Uop) (pc q : Nat) : Prop :=
  u.kind.isVoid = false ∧ p.Defines u pc q

/-- Nothing differs between two contexts but what belongs to the kind of the instruction
at the position of the first. -/
structure Uop.Keeps (p : Program) (u : Uop) (c c' : Context) : Prop where
  pc : c'.pc = c.pc := by rfl
  point : c'.point = c.point := by rfl
  warp : c'.warp = c.warp := by rfl
  launchValues : c'.launchValues = c.launchValues := by rfl
  values : ∀ q, ¬ p.Owns u c.pc q → c'.values.get? q = c.values.get? q := by intros; rfl
  types : ∀ q, ¬ (u.kind.isVoid = false ∧ q = c.pc) → c'.types.get? q = c.types.get? q := by
    intros; rfl
  loopEnds : ∀ l, ¬ (u.kind = .endLoop ∧ u.src.head? = some l) →
    c'.loopEnds.get? l = c.loopEnds.get? l := by intros; rfl
  cursor : u.kind ≠ .defineGlobal → c'.memory.bound = c.memory.bound := by intros; rfl
  globals : u.kind ≠ .store → c'.memory.globals = c.memory.globals := by intros; rfl
  scratch : u.kind ≠ .store → u.kind ≠ .defineLocal →
    c'.memory.scratch = c.memory.scratch := by intros; rfl
  /-- no buffer goes away or changes its format or size -/
  memory : c.memory.Extends c'.memory := by exact .refl _
  bound : u.kind ≠ .defineVar → c'.bound = c.bound := by intros; rfl

namespace Uop.Keeps

variable {p : Program} {u : Uop} {c c' c'' : Context}

theorem trans (h : u.Keeps p c c') (h' : u.Keeps p c' c'') : u.Keeps p c c'' where
  pc := h'.pc.trans h.pc
  point := h'.point.trans h.point
  warp := h'.warp.trans h.warp
  launchValues := h'.launchValues.trans h.launchValues
  values q hq := (h'.values q (by rwa [h.pc])).trans (h.values q hq)
  types q hq := (h'.types q (by rwa [h.pc])).trans (h.types q hq)
  loopEnds l hl := (h'.loopEnds l hl).trans (h.loopEnds l hl)
  cursor hk := (h'.cursor hk).trans (h.cursor hk)
  globals hk := (h'.globals hk).trans (h.globals hk)
  scratch hk hk' := (h'.scratch hk hk').trans (h.scratch hk hk')
  memory := h.memory.trans h'.memory
  bound hk := (h'.bound hk).trans (h.bound hk)

theorem counted (u : Uop) (p : Program) (c : Context) : u.Keeps p c c.counted := {}

theorem declared (hk : u.kind.isVoid = false) (c : Context) (d : DType) :
    u.Keeps p c (c.counted.declared d) where
  types _ hq := Table.get?_insert_of_ne _ (fun he => hq ⟨hk, he⟩) _

/-- A value at the own position. -/
theorem define (hk : u.kind.isVoid = false) (c : Context) (v : LaneValues) :
    u.Keeps p c (c.define v) where
  values _ hq := Table.get?_insert_of_ne _ (fun he => hq ⟨hk, .inl he⟩) _

/-- The end of a loop on record. -/
theorem closed {l : Nat} {r : List Nat} (hk : u.kind = .endLoop) (hs : u.src = l :: r)
    (c : Context) (n : Nat) : u.Keeps p c { c with loopEnds := c.loopEnds.insert l n } where
  loopEnds l' hl := Table.get?_insert_of_ne _ (fun he => hl ⟨hk, by rw [hs, he]; rfl⟩) _

theorem left (hk : u.kind.isVoid = false) (c : Context) :
    u.Keeps p c { c with values := c.values.erase c.pc } where
  values _ hq := Table.get?_erase_of_ne _ fun he => hq ⟨hk, .inl he⟩

theorem stored (hk : u.kind = .store) (c : Context) (ws : List Write) :
    u.Keeps p c { c with memory := (c.memory.perform ws).1 } where
  cursor _ := (c.memory.perform_keeps ws).2.1
  globals h := absurd hk h
  scratch h _ := absurd hk h
  memory := (c.memory.perform_keeps ws).1

/-- The next buffer of the caller taken. -/
theorem bound_global {t : ScalarType} {view : View} {m : Memory} (hk : u.kind = .defineGlobal)
    (hb : c.memory.bind? t = some (.ok view, m)) : u.Keeps p c { c with memory := m } := by
  obtain ⟨-, rfl, -⟩ := Memory.bind?_eq_some hb
  exact { cursor := fun h => absurd hk h, memory := ⟨Nat.le_succ _, rfl, List.prefix_refl _⟩ }

theorem allocated (hk : u.kind = .defineLocal) (c : Context) (t : ScalarType) (size : Nat) :
    u.Keeps p c { c with memory := (c.memory.allocate t size).2 } where
  scratch _ h := absurd hk h
  memory := Memory.extends_allocate _ _ _

theorem taken (hk : u.kind = .defineVar) (c : Context) :
    u.Keeps p c { c with bound := c.bound + 1 } where
  bound h := absurd hk h

theorem accumulated (hk : u.kind = .phi) {a : Nat} {r : List Nat} (hs : p.valueOperands u = a :: r)
    (c : Context) (v : LaneValues) : u.Keeps p c { c with values := c.values.insert a v } where
  values _ hq := Table.get?_insert_of_ne _
    (fun he => hq ⟨by rw [hk]; rfl, .inr ⟨hk, by rw [hs, he]; rfl⟩⟩) _

end Uop.Keeps

variable {p : Program} {u : Uop} {c c' : Context} {k : Control}

/-- A producing instruction changes what belongs to its kind. -/
theorem Makes.keeps {d : DType} {ops : List Operand} (hk : u.kind.isVoid = false)
    (h : Makes p u d c ops c') : u.Keeps p c c' := by
  cases h with
  | global hkind ht hb => exact (Uop.Keeps.bound_global hkind hb).trans (.define hk _ _)
  | scratch hkind ht ha => exact (Uop.Keeps.allocated hkind c _ _).trans (.define hk _ _)
  | launchValue hkind hv hw => exact (Uop.Keeps.taken hkind c).trans (.define hk _ _)
  | nameless hkind hc => exact {}
  | carry hkind hs ho => exact (Uop.Keeps.accumulated hkind hs c _).trans (.define hk _ _)
  | _ => exact .define hk _ _

theorem Kind.isVoid_of_isProducer {k : Kind} (h : k.isProducer = true) : k.isVoid = false := by
  cases k <;> first | rfl | cases h

/-- A step finds its instruction and changes what belongs to it, or it halts. -/
theorem Fires.keeps (h : Fires p c c' k) :
    (p.get? c.pc = none ∧ c' = c) ∨ ∃ u, p.get? c.pc = some u ∧ u.Keeps p c c' := by
  cases h with
  | halt hu => exact .inl ⟨hu, rfl⟩
  | close hu hk hs =>
    exact .inr ⟨_, hu, (Uop.Keeps.counted _ p c).trans (.closed hk hs _ _)⟩
  | mark hu hk => exact .inr ⟨_, hu, .counted _ p c⟩
  | @store u ops ws m hu hk hg hw hm =>
    refine .inr ⟨u, hu, (Uop.Keeps.counted _ p c).trans ?_⟩
    have hstored := Uop.Keeps.stored (p := p) hk c.counted ws
    rwa [show c.counted.memory.perform ws = (m, .ok ()) from hm] at hstored
  | produce hu hk hd hg hp =>
    have hvoid := Kind.isVoid_of_isProducer hk
    exact .inr ⟨_, hu, (Uop.Keeps.declared hvoid c _).trans ((makes_of_produce hk hp).keeps hvoid)⟩
  | @enter u d ops v w hu hk =>
    have hvoid : u.kind.isVoid = false := by rw [hk]; rfl
    exact .inr ⟨u, hu, (Uop.Keeps.declared hvoid c _).trans (.define hvoid _ _)⟩
  | @again u d ops counter next stop hu hk =>
    have hvoid : u.kind.isVoid = false := by rw [hk]; rfl
    exact .inr ⟨u, hu, (Uop.Keeps.declared hvoid c _).trans (.define hvoid _ _)⟩
  | @leave u d ops counter next stop e hu hk =>
    have hvoid : u.kind.isVoid = false := by rw [hk]; rfl
    exact .inr ⟨u, hu, (Uop.Keeps.declared hvoid c _).trans (.left hvoid _)⟩

/-! ## What changes for certain -/

/-- Where there is an instruction the step does not halt. -/
theorem Fires.ne_halt (h : Fires p c c' k) (hu : p.get? c.pc = some u) : k ≠ .halt := by
  cases h with
  | halt hn => cases hu.symm.trans hn
  | _ => simp

/-- A phi leaves the entry of its second operand with its first operand and itself. -/
theorem Fires.carries (h : Fires p c c' k) (hu : p.get? c.pc = some u) (hk : u.kind = .phi) :
    ∃ a s r v, p.valueOperands u = a :: s :: r ∧ c.values.get? s = some v ∧
      c'.values.get? a = some v ∧ c'.values.get? c.pc = some v := by
  obtain ⟨t, ops, -, hg, hm, -⟩ := h.makes hu (by rw [hk]; rfl)
  cases hm with
  | @carry a r o hkind hs ho =>
    have hall := mapM_eq_ok.mp hg
    rw [hs] at hall
    have ho := Operand.require_eq_ok.mp ho
    cases hall with
    | cons ha hall =>
      cases hall with
      | nil => cases ho
      | @cons s o' r ops hb hall =>
        cases ho
        refine ⟨a, s, r, o.values, hs, (operand_eq_ok.mp hb).1, ?_, Table.get?_insert_self _ _ _⟩
        by_cases he : a = c.pc
        · rw [he]
          exact Table.get?_insert_self _ _ _
        · exact (Table.get?_insert_of_ne _ he _).trans (Table.get?_insert_self _ _ _)
  | literal hkind => rcases hkind with hkind | hkind <;> cases hk.symm.trans hkind
  | _ hkind => cases hk.symm.trans hkind

/-- A loop that jumps has lost its counter. -/
theorem Fires.exits {n : Nat} (h : Fires p c c' (.jump n)) (hu : p.get? c.pc = some u)
    (hk : u.kind = .loop) : c'.values.get? c.pc = none := by
  cases h with
  | close hv hkind =>
    cases hu.symm.trans hv
    cases hk.symm.trans hkind
  | leave => exact Table.get?_erase_self _ _

/-- A definition of a local buffer adds one after those that are there. -/
theorem Fires.allocates (h : Fires p c c' k) (hu : p.get? c.pc = some u)
    (hk : u.kind = .defineLocal) : ∃ b, c'.memory.scratch = c.memory.scratch ++ [b] := by
  obtain ⟨t, ops, -, -, hm, -⟩ := h.makes hu (by rw [hk]; rfl)
  cases hm with
  | @scratch s name size hkind ht ha => exact ⟨.zeros s size, rfl⟩
  | literal hkind => rcases hkind with hkind | hkind <;> cases hk.symm.trans hkind
  | _ hkind => cases hk.symm.trans hkind

/-- The outcome of a marker is the context with one more instruction counted. -/
theorem counted_of_step (h : step p c = (c', .ok k)) (hu : p.get? c.pc = some u)
    (hk : u.kind.isMarker = true) : c' = c.counted := by
  rw [step_of_fires (.mark hu hk)] at h
  exact (Prod.mk.inj h).1.symm

/-- A step that does not fail halts without any change, or counts one instruction and
changes only what belongs to its kind. A phi leaves the value of its second operand with
its first operand and itself; a loop that is left loses its entry; a local buffer comes
after those that are there; a marker changes nothing but the counter. -/
theorem step_frame (h : step p c = (c', .ok k)) :
    (p.get? c.pc = none ∧ c' = c) ∨
      ∃ u, p.get? c.pc = some u ∧ c'.instructions = c.instructions + 1 ∧ u.Keeps p c c' ∧
        (u.kind = .phi → ∃ a s r v, p.valueOperands u = a :: s :: r ∧ c.values.get? s = some v ∧
          c'.values.get? a = some v ∧ c'.values.get? c.pc = some v) ∧
        (u.kind = .loop → ∀ n, k = .jump n → c'.values.get? c.pc = none) ∧
        (u.kind = .defineLocal → ∃ b, c'.memory.scratch = c.memory.scratch ++ [b]) ∧
        (u.kind.isMarker = true → c' = { c with instructions := c.instructions + 1 }) := by
  have hf := fires_of_step h
  rcases hf.keeps with hhalt | ⟨u, hu, hkeeps⟩
  · exact .inl hhalt
  · refine .inr ⟨u, hu, ?_, hkeeps, hf.carries hu, ?_, hf.allocates hu, counted_of_step h hu⟩
    · have hcount := Steps.instructions ⟨c', k, h, hf.ne_halt hu, rfl⟩
      rwa [Context.follow_instructions] at hcount
    · rintro hk n rfl
      exact hf.exits hu hk

/-- Carries a constant into an accumulator. -/
def Program.handOver : Program where
  uops :=
    [⟨.const, some (.scalar (.int .int32)), [], .literal (.int 5)⟩,
     ⟨.defineAcc, some (.scalar (.int .int32)), [], .literal (.int 0)⟩,
     ⟨.phi, some (.scalar (.int .int32)), [1, 0], .none⟩]

/-- The phi of `handOver` gives the constant to the accumulator and leaves the entry of the
constant, the cursor and the buffers as they are. -/
theorem step_frame_handOver :
    ∃ c c', run .handOver 2 (.start ⟨0, 0, 0⟩ ⟨⟨1, 1, 1⟩⟩ [] []) = (c, .unfinished) ∧
      step .handOver c = (c', .ok .proceed) ∧ c.values.get? 1 ≠ c.values.get? 0 ∧
      c'.values.get? 1 = c.values.get? 0 ∧ c'.values.get? 2 = c.values.get? 0 ∧
      c'.values.get? 0 = c.values.get? 0 ∧ c'.memory.globals = c.memory.globals := by
  obtain ⟨c, hc⟩ : ∃ c, run .handOver 2 (.start ⟨0, 0, 0⟩ ⟨⟨1, 1, 1⟩⟩ [] []) = (c, .unfinished) :=
    ⟨_, rfl⟩
  obtain ⟨c', hstep⟩ : ∃ c', step .handOver c = (c', .ok .proceed) := by
    cases hc
    exact ⟨_, rfl⟩
  have hpc : c.pc = 2 := by cases hc; rfl
  have hne : c.values.get? 1 ≠ c.values.get? 0 := by cases hc; decide
  rcases step_frame hstep with ⟨hu, -⟩ | ⟨u, hu, -, hkeeps, hphi, -⟩
  · rw [hpc] at hu
    cases hu
  · rw [hpc] at hu
    cases hu
    obtain ⟨a, s, r, v, hs, hv, ha, hown⟩ := hphi rfl
    cases hs
    rw [hpc] at hown
    refine ⟨c, c', hc, hstep, hne, ha.trans hv.symm, hown.trans hv.symm, ?_,
      hkeeps.globals (by simp)⟩
    refine hkeeps.values 0 ?_
    rintro ⟨-, he | ⟨-, he⟩⟩
    · rw [hpc] at he
      cases he
    · cases he

end Lockstep
