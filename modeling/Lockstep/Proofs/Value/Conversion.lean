import Lockstep.Proofs.Value.Tagged

/-!
# Conversions between integers and truth values

A truth value or an integer converts by its number alone: to the one value of the target type
that stands for the number, or to none when the number is out of the type's range. So a
conversion can be undone, and a stop on the way to a third type makes no difference.
-/

namespace Lockstep

namespace ScalarType

/-- The type has a value for the integer. -/
def Holds (n : Int) : ScalarType → Prop
  | bool => n = 0 ∨ n = 1
  | int t => t.min ≤ n ∧ n ≤ t.max
  | float _ => False

/-- Why the type has no value for the integer. -/
def refusal (n : Int) : ScalarType → ConvertError
  | int t => .overflow (.whole n) (int t)
  | t => .incompatible (.whole n) t

end ScalarType

namespace Value

variable {v w : Value} {t : ScalarType} {n : Int}

/-- There is one value of a type for an integer. -/
theorem eq_of_toInt? (htype : v.type = w.type) (hv : v.toInt? = some n) (hw : w.toInt? = some n) :
    v = w := by
  cases v with
  | float s x => cases hv
  | bool a => cases w with
    | bool b =>
      have hab : (if a then (1 : Int) else 0) = if b then 1 else 0 :=
        Option.some.inj (hv.trans hw.symm)
      revert hab
      cases a <;> cases b <;> decide
    | _ => cases htype
  | int s i => cases w with
    | int s' j =>
      cases htype
      cases hv
      cases hw
      rfl
    | _ => cases htype

theorem holds_of_wellFormed (hv : v.WellFormed) (hn : v.toInt? = some n) : v.type.Holds n := by
  cases v with
  | bool b =>
    cases hn
    cases b
    · exact .inl rfl
    · exact .inr rfl
  | int s i =>
    cases hn
    exact wellFormed_int.mp hv
  | float s x => cases hn

/-! ## Values of integers -/

theorem ofInt_of_holds (h : t.Holds n) :
    ∃ w, ofInt n t = .ok w ∧ w.type = t ∧ w.toInt? = some n := by
  cases t with
  | bool =>
    rcases h with rfl | rfl
    · exact ⟨bool false, rfl, rfl, rfl⟩
    · exact ⟨bool true, rfl, rfl, rfl⟩
  | int s => exact ⟨int s n, if_pos (IntType.contains_iff.mpr h), rfl, rfl⟩
  | float s => exact h.elim

theorem ofInt_of_not_holds (ht : t.isFloat = false) (h : ¬ t.Holds n) :
    ofInt n t = .error (t.refusal n) := by
  cases t with
  | bool =>
    obtain ⟨hzero, hone⟩ := not_or.mp h
    rw [ofInt, if_neg hzero, if_neg hone]
    rfl
  | int s => exact if_neg (mt IntType.contains_iff.mp h)
  | float s => cases ht

theorem holds_iff_ofInt (ht : t.isFloat = false) : (∃ w, ofInt n t = .ok w) ↔ t.Holds n := by
  constructor
  · rintro ⟨w, hw⟩
    by_contra h
    rw [ofInt_of_not_holds ht h] at hw
    cases hw
  · intro h
    obtain ⟨w, hw, -⟩ := ofInt_of_holds h
    exact ⟨w, hw⟩

theorem of_ofInt (ht : t.isFloat = false) (h : ofInt n t = .ok w) :
    w.type = t ∧ w.toInt? = some n := by
  obtain ⟨w', hw', htype, hn⟩ := ofInt_of_holds ((holds_iff_ofInt ht).mp ⟨w, h⟩)
  rw [h] at hw'
  cases hw'
  exact ⟨htype, hn⟩

/-! ## Conversions -/

/-- The number decides what becomes of a value, also in its own type. -/
theorem convert_eq_ofInt (hv : v.WellFormed) (hn : v.toInt? = some n) (t : ScalarType) :
    v.convert t = ofInt n t := by
  unfold convert
  split
  next htype =>
    obtain ⟨w, hw, hwtype, hwn⟩ := ofInt_of_holds (holds_of_wellFormed hv hn)
    rw [← htype, hw, eq_of_toInt? hwtype.symm hn hwn]
  next htype =>
    cases v with
    | bool b =>
      cases hn
      rfl
    | int s i =>
      cases hn
      rfl
    | float s x => cases hn

/-- What conversions to a type do with a value that stands for the integer `n`. -/
structure ConvertsExactly (v : Value) (n : Int) (t : ScalarType) : Prop where
  succeeds_iff : (∃ w, v.convert t = .ok w) ↔ t.Holds n
  refused : ¬ t.Holds n → v.convert t = .error (t.refusal n)
  same_number : ∀ w, v.convert t = .ok w →
    w.type = t ∧ w.toInt? = some n ∧ v.numericEq w = true
  back : ∀ w, v.convert t = .ok w → w.convert v.type = .ok v
  /-- what comes of a third type, be it a value or an error, is the same from both -/
  through : ∀ w, v.convert t = .ok w → ∀ u, w.convert u = v.convert u
  /-- so it is with payloads in machine words, whatever is taken for an integer that is not
  there -/
  words : ∀ default, v.tagged.convert default t = (v.convert t).map tagged

/-- Integers and truth values convert exactly or not at all. -/
theorem converts_exactly (hv : v.WellFormed) (hn : v.toInt? = some n) (ht : t.isFloat = false) :
    ConvertsExactly v n t := by
  have hconvert := convert_eq_ofInt hv hn
  have hresult : ∀ w, v.convert t = .ok w →
      w.WellFormed ∧ w.type = t ∧ w.toInt? = some n := by
    intro w hw
    have hmade := made_convert hv hw
    rw [hconvert] at hw
    exact ⟨hmade.2, of_ofInt ht hw⟩
  have hthrough : ∀ w, v.convert t = .ok w → ∀ u, w.convert u = v.convert u := by
    intro w hw u
    obtain ⟨hwf, -, hwn⟩ := hresult w hw
    rw [convert_eq_ofInt hwf hwn, hconvert]
  refine ⟨?_, ?_, ?_, ?_, hthrough, fun default => ?_⟩
  · rw [hconvert]
    exact holds_iff_ofInt ht
  · intro h
    rw [hconvert]
    exact ofInt_of_not_holds ht h
  · intro w hw
    obtain ⟨-, htype, hwn⟩ := hresult w hw
    refine ⟨htype, hwn, ?_⟩
    rw [numericEq, hn, hwn]
    exact beq_self_eq_true n
  · intro w hw
    rw [hthrough w hw]
    exact if_pos rfl
  · exact convert_tagged hv default t

/-- The greatest signed word, kept as an unsigned one. -/
theorem converts_exactly_signBoundary :
    (int .uint64 0x7FFFFFFFFFFFFFFF).WellFormed ∧
      (int .uint64 0x7FFFFFFFFFFFFFFF).toInt? = some 0x7FFFFFFFFFFFFFFF ∧
      (ScalarType.int .int64).isFloat = false ∧
      ConvertsExactly (int .uint64 0x7FFFFFFFFFFFFFFF) 0x7FFFFFFFFFFFFFFF (.int .int64) :=
  ⟨by decide, rfl, rfl, converts_exactly (by decide) rfl rfl⟩

end Value

end Lockstep
