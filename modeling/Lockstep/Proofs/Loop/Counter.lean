import Lockstep.Proofs.Alu.Exact
import Lockstep.Proofs.Loop.Moves

/-!
# Integer counters

A loop of integer type counts in integers: its counter starts as one, each round
adds one to it, and it never passes the widest type of its signedness.
-/

namespace Lockstep

namespace Loop

variable {t : IntType} {i : Int}

theorem highestOrder?_int (t : IntType) :
    ScalarType.highestOrder? [.int t, .int t, .int t] = some (.int t) := by
  cases t <;> rfl

theorem promote_int (op : AluOp) (t : IntType) (i j : Int) :
    Alu.promote op (.int t) [.int t i, .int t j] = .ok ⟨.int t, [.int t i, .int t j]⟩ := by
  have hread : ∀ n : Int, Alu.readOperand (.int t) (.int t n) = .ok (.int t n) := by
    intro n
    cases t <;> rfl
  rw [Alu.promote_eq_ok, mapM_eq_ok]
  exact ⟨.cons (hread i) (.cons (hread j) .nil), highestOrder?_int t⟩

/-- One more, in the type of the counter or else in the widest of its
signedness. -/
theorem increment_int (t : IntType) (i : Int) :
    increment (.int t i) = Alu.fit .add t (i + 1) := by
  have hone : conversion (Value.ofInt 1 (Value.int t i).type) = .ok (.int t 1) := by
    change conversion (if t.contains 1 then _ else _) = _
    rw [if_pos t.contains_one]
    rfl
  have happly : Alu.apply .add (.int t)
      (Alu.numbers .add ⟨.int t, [.int t i, .int t 1]⟩) = Alu.whole (i + 1) := by
    have hnumbers : Alu.numbers .add ⟨.int t, [.int t i, .int t 1]⟩ = [.whole i, .whole 1] := by
      cases t <;> rfl
    rw [hnumbers]
    exact Alu.binary_whole _ _ i 1
  unfold increment
  rw [hone]
  change Alu.execute .add (.int t) [.int t i, .int t 1] = _
  have hprepare : Alu.prepare .add (.int t) [.int t i, .int t 1] =
      .ok ⟨.int t, [.int t i, .int t 1]⟩ := promote_int .add t i 1
  rw [Alu.execute_eq_conclude hprepare rfl, happly, Alu.conclude_whole]

/-- A counter that goes on stays within the widest type. -/
theorem increment_eq_ok {v : Value} (h : increment (.int t i) = .ok v) :
    ∃ t', v = .int t' (i + 1) ∧ t.widest.contains (i + 1) = true := by
  rw [increment_int] at h
  exact Alu.fit_eq_ok h

/-- The value with which a loop over a type counts an integer. -/
def counter (t : IntType) (n : Int) : Value :=
  if t.contains n then .int t n else .int t.widest n

theorem increment_counter {n : Int} (hmin : t.min ≤ n) (h : t.widest.contains (n + 1) = true) :
    increment (counter t n) = .ok (counter t (n + 1)) := by
  unfold counter
  by_cases hn : t.contains n = true
  · rw [if_pos hn, increment_int, Alu.fit]
    by_cases hn' : t.contains (n + 1) = true
    · rw [if_pos hn', if_pos hn']
    · rw [if_neg hn', if_neg hn', if_pos h]
  · have hn' : ¬ t.contains (n + 1) = true := by
      rw [IntType.contains_iff] at hn ⊢
      omega
    rw [if_neg hn, if_neg hn', increment_int, Alu.fit_of_contains h]

/-- A counter that goes on is the next one. -/
theorem increment_counter_eq {n : Int} {v : Value} (hmin : t.min ≤ n)
    (h : increment (counter t n) = .ok v) : v = counter t (n + 1) := by
  have hwidest : t.widest.contains (n + 1) = true := by
    unfold counter at h
    split at h
    · obtain ⟨-, -, hfits⟩ := increment_eq_ok h
      exact hfits
    · obtain ⟨-, -, hfits⟩ := increment_eq_ok h
      cases t <;> exact hfits
  rw [increment_counter hmin hwidest] at h
  exact (Except.ok.inj h).symm

theorem toInt?_counter (t : IntType) (n : Int) : (counter t n).toInt? = some n := by
  unfold counter
  split
  · rfl
  · rfl

end Loop

theorem Value.convert_int {v w : Value} {t : IntType} (h : v.convert (.int t) = .ok w) :
    ∃ i, w = .int t i := by
  have hofInt : ∀ j : Int, Value.ofInt j (.int t) = .ok w → ∃ i, w = .int t i := by
    intro j hj
    unfold Value.ofInt at hj
    dsimp only at hj
    split at hj
    · exact ⟨j, (Except.ok.inj hj).symm⟩
    · cases hj
  unfold Value.convert at h
  split at h
  · rename_i htype
    cases h
    cases v with
    | int s i =>
      cases htype
      exact ⟨i, rfl⟩
    | bool b => cases htype
    | float s x => cases htype
  · cases v with
    | bool b => exact hofInt _ h
    | int s i => exact hofInt _ h
    | float s x =>
      change Value.ofFloat x (.int t) = _ at h
      unfold Value.ofFloat at h
      dsimp only at h
      split at h
      · exact hofInt _ h
      · cases h

/-- A conversion to an integer type keeps the integer. It fails only if the type
does not have it. -/
theorem Value.convert_of_toInt {v : Value} {n : Int} (hv : v.toInt? = some n) (t : IntType) :
    v.convert (.int t) = .ok (.int t n) ∨
      t.contains n = false ∧ ∃ e, v.convert (.int t) = .error e := by
  have hofInt : Value.ofInt n (.int t) = .ok (.int t n) ∨
      t.contains n = false ∧ ∃ e, Value.ofInt n (.int t) = .error e := by
    unfold Value.ofInt
    dsimp only
    split
    · exact .inl rfl
    · rename_i hn
      exact .inr ⟨Bool.eq_false_iff.mpr hn, _, rfl⟩
  unfold Value.convert
  split
  · rename_i htype
    cases v with
    | int s i =>
      cases htype
      cases hv
      exact .inl rfl
    | bool b => cases htype
    | float s x => cases htype
  · cases v with
    | bool b =>
      cases hv
      exact hofInt
    | int s i =>
      cases hv
      exact hofInt
    | float s x => cases hv

/-- An integer that is in the type is converted to it as it is. -/
theorem Value.convert_of_contains {v : Value} {t : IntType} {n : Int} (hv : v.toInt? = some n)
    (ht : t.contains n = true) : v.convert (.int t) = .ok (.int t n) := by
  rcases convert_of_toInt hv t with h | ⟨hn, -⟩
  · exact h
  · rw [ht] at hn
    cases hn

theorem Value.eq_of_convert {v w : Value} {t : IntType} {n : Int} (hv : v.toInt? = some n)
    (h : v.convert (.int t) = .ok w) : w = .int t n := by
  rcases convert_of_toInt hv t with hn | ⟨-, e, he⟩
  · rw [h] at hn
    exact Except.ok.inj hn
  · rw [h] at he
    cases he

theorem Value.numericEq_of_toInt? {v w : Value} {i j : Int} (hv : v.toInt? = some i)
    (hw : w.toInt? = some j) : v.numericEq w = (i == j) := by
  unfold Value.numericEq
  rw [hv, hw]

/-! ## What an entry at a loop holds -/

/-- The entry at the position, if there is one, holds an integer on every
lane. -/
def CountsAt (c : Context) (l : Nat) : Prop :=
  ∀ v, c.values.get? l = some v →
    ∃ lanes : Lanes, v = .scalar lanes ∧ ∀ x ∈ lanes, ∃ t i, x = .int t i

/-- The ends on record are ends of the loops they are recorded for. -/
def EndsKnown (p : Program) (c : Context) : Prop :=
  ∀ l e, c.loopEnds.get? l = some e → p.EndsLoop e l

variable {p : Program} {c d : Context}

theorem CountsAt.step {l : Nat} (hl : p.isLoopAt l = true) (hints : p.CountsInts l)
    (h : CountsAt c l) (hm : Moves p c d) : CountsAt d l := by
  intro v hv
  by_cases hne : l = c.pc
  · subst hne
    cases hm with
    | on hu hk hk' hpc hends hvalues =>
      rw [hvalues _ hl] at hv
      exact h v hv
    | back he hpc hends hvalues =>
      rw [hvalues] at hv
      exact h v hv
    | enter hu hk ht hg hn hv' hw hpc hends hvalues =>
      rw [hvalues, Table.get?_insert_self] at hv
      cases hv
      refine ⟨_, rfl, ?_⟩
      intro x hx
      obtain ⟨t, ht'⟩ := hints _ hu hk
      rw [ht] at ht'
      cases ht'
      obtain ⟨i, hi⟩ := Value.convert_int hw
      exact ⟨t, i, (List.eq_of_mem_replicate hx).trans hi⟩
    | again hu hk hg hn hi hv' hr hpc hends hvalues =>
      rw [hvalues, Table.get?_insert_self] at hv
      cases hv
      refine ⟨_, rfl, ?_⟩
      intro x hx
      obtain ⟨y, hy, hyx⟩ := mem_of_mapM hi hx
      obtain ⟨lanes, hlanes, hall⟩ := h _ hn
      cases hlanes
      obtain ⟨t, i, rfl⟩ := hall y hy
      obtain ⟨t', ht', -⟩ := Loop.increment_eq_ok hyx
      exact ⟨t', i + 1, ht'⟩
    | leave hu hk hg hn hi hv' hr he hpc hends hvalues =>
      rw [hvalues, Table.get?_erase_self] at hv
      cases hv
  · rw [hm.values_loop hl hne] at hv
    exact h v hv

theorem EndsKnown.step (h : EndsKnown p c) (hm : Moves p c d) : EndsKnown p d := by
  intro l e he
  cases hm with
  | @back l₀ hend hpc hends hvalues =>
    rw [hends] at he
    by_cases hl : l = l₀
    · subst hl
      rw [Table.get?_insert_self] at he
      cases he
      exact hend
    · rw [Table.get?_insert_of_ne _ hl] at he
      exact h l e he
  | on hu hk hk' hpc hends hvalues => exact h l e (hends ▸ he)
  | enter hu hk ht hg hn hv hw hpc hends hvalues => exact h l e (hends ▸ he)
  | again hu hk hg hn hi hv hr hpc hends hvalues => exact h l e (hends ▸ he)
  | leave hu hk hg hn hi hv hr he' hpc hends hvalues => exact h l e (hends ▸ he)

end Lockstep
