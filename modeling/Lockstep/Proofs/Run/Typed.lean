import Lockstep.Proofs.Program.WellFormed
import Lockstep.Proofs.Run.Reach

/-!
# Values and their types

Where a run finds a value it finds a type, so that an operand is missing only
for want of its value. Values stay until a loop gives up its own.
-/

namespace Lockstep

variable {p : Program} {c d : Context}

theorem operand_eq_ok {s : Nat} {o : Operand} :
    c.operand s = .ok o ↔ c.values.get? s = some o.values ∧ c.types.get? s = some o.type := by
  unfold Context.operand
  cases c.values.get? s with
  | none => simp
  | some v =>
    cases c.types.get? s with
    | none => simp
    | some t =>
      obtain ⟨v', t'⟩ := o
      simp

theorem operand_of_gather {u : Uop} {ops : List Operand} (h : gather p u c = .ok ops) {s : Nat}
    (hs : s ∈ p.valueOperands u) : ∃ o ∈ ops, c.operand s = .ok o :=
  ok_of_mapM h hs

/-- Every value in the table has a type on record. -/
def Context.Typed (c : Context) : Prop :=
  ∀ q, c.values.get? q ≠ none → c.types.get? q ≠ none

theorem Context.typed_start (point : Point) (warp : Warp) (buffers : List Buffer)
    (launchValues : List Value) : (Context.start point warp buffers launchValues).Typed :=
  fun _ h => absurd rfl h

theorem Context.Typed.declared {q : Nat} (h : c.Typed) (t : DType)
    (hq : q = c.pc ∨ c.values.get? q ≠ none) : (c.counted.declared t).types.get? q ≠ none := by
  change (c.types.insert c.pc t).get? q ≠ none
  by_cases he : q = c.pc
  · subst he
    simp
  · rw [Table.get?_insert_of_ne _ he]
    exact h q (hq.resolve_left he)

theorem Context.define_mono {v : LaneValues} {q : Nat}
    (hq : (c.define v).values.get? q ≠ none) : q = c.pc ∨ c.values.get? q ≠ none := by
  by_cases he : q = c.pc
  · exact .inl he
  · refine .inr ?_
    rwa [Context.define_values, Table.get?_insert_of_ne _ he] at hq

/-- A producing instruction types its own position, and an accumulator has a
type as soon as it can be read. -/
theorem Makes.typed {u : Uop} {t : DType} {ops : List Operand} (h : c.Typed)
    (hg : gather p u c = .ok ops) (hm : Makes p u t (c.counted.declared t) ops d) : d.Typed := by
  intro q hq
  rw [hm.types_eq]
  apply h.declared t
  by_cases hdef : p.Defines u c.pc q
  · rcases hdef with rfl | ⟨-, ha⟩
    · exact .inl rfl
    · obtain ⟨o, -, ho⟩ := operand_of_gather hg (List.mem_of_mem_head? ha)
      refine .inr ?_
      rw [(operand_eq_ok.mp ho).1]
      simp
  · rw [hm.values_eq hdef] at hq
    exact .inr hq

theorem Steps.typed (h : Steps p c d) (ht : c.Typed) : d.Typed := by
  obtain ⟨c', k, hs, hne, rfl⟩ := h
  intro q hq
  rw [Context.follow_values] at hq
  rw [Context.follow_types]
  cases fires_of_step hs with
  | halt hu => exact absurd rfl hne
  | close hu hk hs => exact ht q hq
  | mark hu hk => exact ht q hq
  | store hu hk hg hw hm => exact ht q hq
  | produce hu hk hd hg hp => exact (makes_of_produce hk hp).typed ht hg q hq
  | enter hu hk hd hg hn hv hw => exact ht.declared _ (Context.define_mono hq)
  | again hu hk hd hg hn hi hv hr => exact ht.declared _ (Context.define_mono hq)
  | leave hu hk hd hg hn hi hv hr he =>
    apply ht.declared
    by_cases he' : q = c.pc
    · exact .inl he'
    · exact .inr (by rwa [Table.get?_erase_of_ne _ he'] at hq)

/-- A type stays on record. -/
theorem Steps.types_mono (h : Steps p c d) {q : Nat} (ht : c.types.get? q ≠ none) :
    d.types.get? q ≠ none := by
  obtain ⟨c', k, hs, hne, rfl⟩ := h
  rw [Context.follow_types]
  have hdeclared : ∀ t, (c.counted.declared t).types.get? q ≠ none := by
    intro t
    change (c.types.insert c.pc t).get? q ≠ none
    by_cases he : q = c.pc
    · subst he
      simp
    · rwa [Table.get?_insert_of_ne _ he]
  cases fires_of_step hs with
  | produce hu hk hd hg hp =>
    rw [(makes_of_produce hk hp).types_eq]
    exact hdeclared _
  | enter hu hk hd hg hn hv hw => exact hdeclared _
  | again hu hk hd hg hn hi hv hr => exact hdeclared _
  | leave hu hk hd hg hn hi hv hr he => exact hdeclared _
  | _ => exact ht

theorem Arrives.typed {c₀ : Context} {o : Option Nat} (h : Arrives p c₀ o c) (h₀ : c₀.Typed) :
    c.Typed := by
  induction h with
  | start => exact h₀
  | step h hs ih => exact hs.typed ih

/-- A phi gives the value of its second operand to the first and to itself. -/
theorem Steps.carries {u : Uop} {a b : Nat} (h : Steps p c d) (hu : p.get? c.pc = some u)
    (hk : u.kind = .phi) (hargs : p.valueOperands u = [a, b]) :
    ∃ v, c.values.get? b = some v ∧ d.pc = c.pc + 1 ∧
      d.values = (c.values.insert a v).insert c.pc v := by
  obtain ⟨t, ops, d', -, hg, hm, rfl⟩ := h.makes hu (by rw [hk]; rfl)
  cases hm with
  | @carry a' l o _ hs ho =>
    rw [hargs] at hs
    cases hs
    unfold gather at hg
    rw [mapM_eq_ok, hargs] at hg
    obtain ⟨_, _, -, hrest, rfl⟩ := List.forall₂_cons_left_iff.mp hg
    obtain ⟨_, _, hop, -, rfl⟩ := List.forall₂_cons_left_iff.mp hrest
    cases ho
    exact ⟨o.values, (operand_eq_ok.mp hop).1, rfl, rfl⟩
  | _ => simp_all

/-- A value that is there can be read. -/
theorem Context.Typed.operand (h : c.Typed) {q : Nat} {v : LaneValues}
    (hv : c.values.get? q = some v) : ∃ t, c.operand q = .ok ⟨v, t⟩ := by
  obtain ⟨t, ht⟩ := Option.ne_none_iff_exists'.mp (h q (by rw [hv]; simp))
  exact ⟨t, operand_eq_ok.mpr ⟨hv, ht⟩⟩

/-- Where values have types, an operand is missed only for want of a value. -/
theorem gather_raises_of_typed (ht : c.Typed) {u : Uop} : Raises (gather p u c)
    fun f => ∃ q ∈ p.valueOperands u, c.values.get? q = none ∧
      f = .malformed c.pc (.operandValue q) := by
  refine .mapM fun q hq => ?_
  cases hv : c.values.get? q with
  | none =>
    rw [Context.operand, hv]
    exact .error ⟨q, hq, hv, rfl⟩
  | some v =>
    obtain ⟨t, hok⟩ := ht.operand hv
    rw [hok]
    exact .ok _

/-- Nothing is missed where all values are there. -/
theorem gather_of_present {u : Uop} (ht : c.Typed)
    (h : ∀ q ∈ p.valueOperands u, c.values.get? q ≠ none) : ∃ ops, gather p u c = .ok ops := by
  refine mapM_ok_of_forall fun q hq => ?_
  obtain ⟨v, hv⟩ := Option.ne_none_iff_exists'.mp (h q hq)
  obtain ⟨t, ht'⟩ := ht.operand hv
  exact ⟨_, ht'⟩

theorem Context.values_define {v : LaneValues} {q : Nat} (hq : c.values.get? q ≠ none) :
    (c.define v).values.get? q ≠ none := by
  rw [Context.define_values]
  by_cases he : q = c.pc
  · subst he
    simp
  · rwa [Table.get?_insert_of_ne _ he]

/-- A value stays unless a loop at its position is left. -/
theorem Steps.values_mono (h : Steps p c d) {q : Nat}
    (hq : q ≠ c.pc ∨ p.isLoopAt q = false) (hv : c.values.get? q ≠ none) :
    d.values.get? q ≠ none := by
  obtain ⟨c', k, hs, hne, rfl⟩ := h
  rw [Context.follow_values]
  cases fires_of_step hs with
  | halt hu => exact absurd rfl hne
  | close hu hk hs => exact hv
  | mark hu hk => exact hv
  | store hu hk hg hw hm => exact hv
  | produce hu hk hd hg hp => exact (makes_of_produce hk hp).values_mono hv
  | enter hu hk hd hg hn hv' hw => exact Context.values_define hv
  | again hu hk hd hg hn hi hv' hr => exact Context.values_define hv
  | leave hu hk hd hg hn hi hv' hr he =>
    have hne' : q ≠ c.pc := by
      rintro rfl
      rcases hq with hq | hq
      · exact hq rfl
      · rw [Program.isLoopAt_of_kind hu hk] at hq
        cases hq
    rwa [Table.get?_erase_of_ne _ hne']

end Lockstep
