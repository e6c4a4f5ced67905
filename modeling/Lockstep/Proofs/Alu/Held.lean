import Lockstep.Proofs.Alu.Exact
import Lockstep.Proofs.Value.WellFormed

/-!
# Integers and the values that hold them

An integer is held in its declared type or, once a result has left that type, in the
widest type of its signedness. Either value stands for the same integer, and operations
on integers that are held give integers that are held, whichever values do so.
-/

namespace Lockstep

/-- A well-formed value that stands for an integer in the type or in the widest of its
signedness. -/
structure IntType.Holds (t : IntType) (v : Value) (i : Int) : Prop where
  wellFormed : v.WellFormed
  eq : v = .int t i ∨ v = .int t.widest i

namespace IntType

theorem widest_widest (t : IntType) : t.widest.widest = t.widest := by
  cases t <;> rfl

theorem holds_of_contains {t : IntType} {i : Int} (h : t.contains i = true) :
    t.Holds (.int t i) i :=
  ⟨h, .inl rfl⟩

theorem holds_of_widest {t : IntType} {i : Int} (h : t.widest.contains i = true) :
    t.Holds (.int t.widest i) i :=
  ⟨h, .inr rfl⟩

namespace Holds

variable {t : IntType} {v w : Value} {i j : Int}

theorem toInt?_eq (h : t.Holds v i) : v.toInt? = some i := by
  rcases h.eq with rfl | rfl <;> rfl

theorem isFloat_eq (h : t.Holds v i) : v.type.isFloat = false := by
  rcases h.eq with rfl | rfl <;> exact Alu.isFloat_int _

/-- An integer outside the type is held in the widest one. -/
theorem eq_widest (h : t.Holds v i) (hi : t.contains i = false) : v = .int t.widest i := by
  rcases h.eq with rfl | rfl
  · have hwf : t.contains i = true := h.wellFormed
    rw [hi] at hwf
    cases hwf
  · rfl

theorem widest_contains (h : t.Holds v i) : t.widest.contains i = true := by
  have hwf := h.wellFormed
  rcases h.eq with rfl | rfl
  · exact contains_widest hwf
  · exact hwf

end Holds

end IntType

namespace Alu

variable {op : AluOp} {t : IntType} {v w : Value} {i j r : Int}

/-- An integer that fits is held by the value that it is given, in the type as well as in
the widest one. -/
theorem holds_of_fit (op : AluOp) {T : IntType} (hT : T = t ∨ T = t.widest) (hr : t.widest.contains r = true) :
    ∃ x, fit op T r = .ok x ∧ t.Holds x r := by
  have hwidest : T.widest = t.widest := by
    rcases hT with rfl | rfl
    · rfl
    · exact t.widest_widest
  unfold fit
  by_cases h : T.contains r = true
  · rw [if_pos h]
    refine ⟨_, rfl, h, ?_⟩
    rcases hT with rfl | rfl
    · exact .inl rfl
    · exact .inr rfl
  · rw [if_neg h, hwidest, if_pos hr]
    exact ⟨_, rfl, IntType.holds_of_widest hr⟩

theorem readOperand_int (s t : IntType) (i : Int) :
    readOperand (.int t) (.int s i) = .ok (.int s i) := by
  have hs : (Value.int s i).type.isBool = false := by cases s <;> rfl
  rw [readOperand, if_neg (by simp [hs])]

/-- Two integers that are held are evaluated in the type, or in the widest one if either
is held in that. -/
theorem promote_of_holds (op : AluOp) (hv : t.Holds v i) (hw : t.Holds w j) :
    ∃ T, (T = t ∨ T = t.widest) ∧ promote op (.int t) [v, w] = .ok ⟨.int T, [v, w]⟩ ∧
      T.contains i = true ∧ T.contains j = true := by
  have hpromote : ∀ s s' T : IntType,
      ScalarType.highestOrder? [.int s, .int s', .int t] = some (.int T) →
      promote op (.int t) [.int s i, .int s' j] = .ok ⟨.int T, [.int s i, .int s' j]⟩ := by
    intro s s' T hT
    rw [promote_eq_ok, mapM_eq_ok]
    exact ⟨.cons (readOperand_int s t i) (.cons (readOperand_int s' t j) .nil), hT⟩
  have hi := hv.widest_contains
  have hj := hw.widest_contains
  rcases hv.eq with rfl | rfl <;> rcases hw.eq with rfl | rfl
  · exact ⟨t, .inl rfl, hpromote t t t (by cases t <;> rfl), hv.wellFormed, hw.wellFormed⟩
  · exact ⟨t.widest, .inr rfl, hpromote t t.widest t.widest (by cases t <;> rfl), hi, hj⟩
  · exact ⟨t.widest, .inr rfl, hpromote t.widest t t.widest (by cases t <;> rfl), hi, hj⟩
  · exact ⟨t.widest, .inr rfl, hpromote t.widest t.widest t.widest (by cases t <;> rfl), hi, hj⟩

/-- An operation on two integers gives an integer that is held, if the widest type has the
exact result. -/
theorem execute_of_holds (hop : op ≠ .select) (hv : t.Holds v i) (hw : t.Holds w j)
    (hexact : ∀ T, exact T false op [i, j] = .number r) (hr : t.widest.contains r = true) :
    ∃ x, execute op (.int t) [v, w] = .ok x ∧ t.Holds x r := by
  obtain ⟨T, hT, hpromote, hi, hj⟩ := promote_of_holds op hv hw
  have hnums : [v, w].map (operandNumber (ScalarType.int T).family) = [i, j].map .whole := by
    have hnumber : ∀ s n, operandNumber (ScalarType.int T).family (.int s n) = .whole n := by
      intro s n
      cases T <;> rfl
    rcases hv.eq with rfl | rfl <;> rcases hw.eq with rfl | rfl <;> simp [hnumber]
  have hdescribes := execute_of_ne_select hop hpromote (by simp [hi, hj]) hnums false
  rw [hexact T] at hdescribes
  obtain ⟨x, hx, hholds⟩ := holds_of_fit op hT hr
  exact ⟨x, hdescribes.trans hx, hholds⟩

end Alu

end Lockstep
