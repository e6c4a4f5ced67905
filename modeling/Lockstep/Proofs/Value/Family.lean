import Lockstep.Value.Convert

/-!
# Numbers and families of types

A number of the family of a type is either represented in that type or too large
for it, and never too large for a double.
-/

namespace Lockstep

/-- The kind of a number is the one that values of the family carry. -/
def Number.InFamily : Number → Family → Prop
  | truth _, .bool => True
  | whole _, .signed => True
  | whole _, .unsigned => True
  | real _, .float => True
  | _, _ => False

theorem Number.inFamily_int {n : Number} {t : IntType} :
    n.InFamily (ScalarType.int t).family ↔ ∃ i, n = whole i := by
  cases n <;> cases t <;> simp [InFamily, ScalarType.family, IntType.isSigned]

theorem Number.inFamily_float {n : Number} {t : FloatType} :
    n.InFamily (ScalarType.float t).family ↔ ∃ x, n = real x := by
  cases n <;> simp [InFamily, ScalarType.family]

theorem Number.inFamily_bool {n : Number} :
    n.InFamily ScalarType.bool.family ↔ ∃ b, n = truth b := by
  cases n <;> simp [InFamily, ScalarType.family]

/-! Only the kind of a number matters. -/

theorem Number.InFamily.whole {i j : Int} {f : Family} (h : (Number.whole i).InFamily f) :
    (Number.whole j).InFamily f := by
  cases f <;> exact h

theorem Number.InFamily.real {x y : Binary64} {f : Family} (h : (Number.real x).InFamily f) :
    (Number.real y).InFamily f := by
  cases f <;> exact h

theorem Number.InFamily.not_real {i : Int} {x : Binary64} {f : Family}
    (h : (Number.whole i).InFamily f) : ¬(Number.real x).InFamily f := by
  cases f <;> simp_all [InFamily]

/-- The widest type of a family belongs to it. -/
theorem ScalarType.family_upgraded (t : ScalarType) : t.upgraded.family = t.family := by
  cases t with
  | bool => rfl
  | int t => cases t <;> rfl
  | float t => rfl

/-- A finite double is no further from zero than the largest one. -/
theorem Binary64.key_abs_le {x : Binary64} (h : x.isFinite = true) :
    x.abs.key ≤ FloatType.float64.max.key := by
  have hmag : x.magnitude < 0x7FF0000000000000 := of_decide_eq_true h
  have hbits : x.abs.bits.toNat = x.magnitude := Nat.mod_eq_of_lt (by omega)
  have hpos : x.abs.negative = false := by
    unfold negative
    rw [hbits]
    exact decide_eq_false (by omega)
  have hmax : FloatType.float64.max.key = 0x7FEFFFFFFFFFFFFF := by decide
  rw [hmax, key, hpos, if_neg Bool.false_ne_true, magnitude, hbits]
  omega

namespace Value

/-- Every float is a double. -/
theorem ofFloat_double (x : Binary64) :
    ofFloat x (.float .float64) = .ok (.float .float64 x) := by
  refine if_neg fun h => ?_
  obtain ⟨hfin, hlt⟩ := Bool.and_eq_true_iff.mp h
  have hkey := Binary64.key_abs_le hfin
  simp only [Binary64.lt, Bool.and_eq_true, decide_eq_true_eq] at hlt
  omega

/-- What becomes of a number in a type of its own family. -/
inductive Settled (n : Number) (t : ScalarType) : Except ConvertError Value → Prop
  | value {v : Value} (h : v.type = t) : Settled n t (.ok v)
  | overflow (h : t ≠ .float .float64) : Settled n t (.error (.overflow n t))

theorem settled_ofNumber {n : Number} {t : ScalarType} (h : n.InFamily t.family) :
    Settled n t (ofNumber n t) := by
  cases t with
  | bool =>
    obtain ⟨b, rfl⟩ := Number.inFamily_bool.mp h
    cases b
    · exact .value rfl
    · exact .value rfl
  | int t =>
    obtain ⟨i, rfl⟩ := Number.inFamily_int.mp h
    change Settled _ _ (if t.contains i then _ else _)
    split
    · exact .value rfl
    · exact .overflow (by simp)
  | float t =>
    obtain ⟨x, rfl⟩ := Number.inFamily_float.mp h
    by_cases ht : t = .float64
    · subst ht
      rw [ofNumber, ofFloat_double]
      exact .value rfl
    · change Settled _ _ (if _ then _ else _)
      split
      · exact .overflow (by simpa using ht)
      · exact .value rfl

end Value

end Lockstep
