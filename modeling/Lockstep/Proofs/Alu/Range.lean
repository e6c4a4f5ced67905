import Lockstep.Alu.Execute

/-!
# Ranges of integer types

The bounds of the eight integer types, how they include each other, and how a
number is represented in one of them.
-/

namespace Lockstep

namespace IntType

theorem contains_iff {t : IntType} {i : Int} : t.contains i = true ↔ t.min ≤ i ∧ i ≤ t.max := by
  simp [contains]

theorem contains_one (t : IntType) : t.contains 1 = true := by
  cases t <;> decide

theorem contains_zero (t : IntType) : t.contains 0 = true := by
  cases t <;> decide

/-- The widest type of each signedness takes the numbers of all its types. -/
theorem contains_widest {t : IntType} {i : Int} (h : t.contains i = true) :
    t.widest.contains i = true := by
  rw [contains_iff] at h ⊢
  cases t <;> simp [widest, isSigned, min, max, bits, size] at h ⊢ <;> omega

/-- Every integer type lies between the extremes of the two widest types. -/
theorem widest_bounds {t : IntType} {i : Int} (h : t.widest.contains i = true) :
    -0x8000000000000000 ≤ i ∧ i ≤ 0xFFFFFFFFFFFFFFFF := by
  rw [contains_iff] at h
  cases t <;> simp [widest, isSigned, min, max, bits, size] at h <;> omega

theorem wide_of_widest {t : IntType} {i : Int} (h : t.widest.contains i = true) :
    Wide.contains i = true := by
  have := widest_bounds h
  unfold Wide.contains Wide.min Wide.max
  exact decide_eq_true (by omega)

end IntType

namespace Alu

/-- The value of an integer: in the type, else in the widest type of its
signedness, else none. -/
def fit (op : AluOp) (t : IntType) (r : Int) : Except Fault Value :=
  if t.contains r then .ok (.int t r)
  else if t.widest.contains r then .ok (.int t.widest r)
  else .error (.overflow op (.int t.widest) (if Wide.contains r then some (.whole r) else none))

theorem fit_of_contains {op : AluOp} {t : IntType} {r : Int} (h : t.contains r = true) :
    fit op t r = .ok (.int t r) := by
  rw [fit, if_pos h]

/-- A number that is represented at all lies in the widest type. -/
theorem fit_eq_ok {op : AluOp} {t : IntType} {r : Int} {v : Value} (h : fit op t r = .ok v) :
    ∃ t', v = .int t' r ∧ t.widest.contains r = true := by
  unfold fit at h
  split at h
  · rename_i hr
    cases h
    exact ⟨t, rfl, IntType.contains_widest hr⟩
  · split at h
    · rename_i hr
      cases h
      exact ⟨t.widest, rfl, hr⟩
    · cases h

theorem attempt_whole (t : IntType) (r : Int) :
    attempt (.whole r) (.int t) =
      if t.contains r then .ok (.int t r) else .error (.overflow (.whole r) (.int t)) := rfl

/-- A wide integer is represented as `fit` says. -/
theorem represent_whole {op : AluOp} {t : IntType} {r : Int} (hw : Wide.contains r = true) :
    represent op (.int t) (.whole r) = fit op t r := by
  unfold represent fit
  rw [attempt_whole]
  by_cases h : t.contains r = true
  · rw [if_pos h, if_pos h]
  · rw [if_neg h, if_neg h]
    dsimp only [ScalarType.upgraded]
    rw [attempt_whole]
    by_cases h' : t.widest.contains r = true
    · rw [if_pos h', if_pos h']
    · rw [if_neg h', if_neg h', if_pos hw]

/-- An integer beyond the wide ones has no value, and its fault shows none. -/
theorem fit_of_beyond {op : AluOp} {t : IntType} {r : Int} (hw : Wide.contains r = false) :
    fit op t r = .error (.overflow op (.int t.widest) none) := by
  have hwidest : t.widest.contains r ≠ true := fun h => by
    rw [IntType.wide_of_widest h] at hw
    cases hw
  have ht : t.contains r ≠ true := fun h => hwidest (IntType.contains_widest h)
  rw [fit, if_neg ht, if_neg hwidest, hw]
  rfl

end Alu

end Lockstep
