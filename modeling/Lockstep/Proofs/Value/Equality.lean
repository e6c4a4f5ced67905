import Lockstep.Proofs.Binary.Nearest
import Lockstep.Proofs.TensorCore.Duplication
import Lockstep.Proofs.Value.WellFormed

/-!
# Equality of numbers

Two integers are compared exactly, and so are two floats. An integer is compared to a float as
the double that it becomes, so that it equals the float nearest to it even where this stands for
another number. Only integers of more than 53 digits do that, and nothing but two of them at the
sides of one float keeps the equality from being transitive.
-/

namespace Lockstep

namespace Value

open Binary64 (Nearest HasDigits)

variable {a b c v : Value} {i j : Int} {q : ℚ} {r : Extended} {t : FloatType} {x y : Binary64}

/-- The number or the infinity that a value stands for. -/
def extended? : Value → Option Extended
  | bool b => some (.finite (if b then 1 else 0))
  | int _ i => some (.finite i)
  | float _ x => x.extended?

/-- Both values stand for one number or infinity. -/
def Same (a b : Value) : Prop :=
  ∃ r, a.extended? = some r ∧ b.extended? = some r

/-- A float could stand for the number of the value. -/
def Exact (v : Value) : Prop :=
  ∃ x : Binary64, x.extended? = v.extended?

/-- The integer becomes the number of the float, which is another one. -/
def RoundsTo (a b : Value) : Prop :=
  ∃ i q, a.toInt? = some i ∧ b.toInt? = none ∧ b.extended? = some (.finite q) ∧ q ≠ i ∧
    (Binary64.ofInt i).extended? = some (.finite q)

theorem extended?_of_toInt? (h : v.toInt? = some i) : v.extended? = some (.finite i) := by
  cases v with
  | bool b =>
    cases h
    cases b <;> rfl
  | int s j =>
    cases h
    rfl
  | float s x => cases h

theorem toFloat_of_toInt? (h : v.toInt? = some i) : v.toFloat = .ofInt i := by
  cases v with
  | bool b =>
    cases h
    cases b
    · decide
    · decide
  | int s j =>
    cases h
    rfl
  | float s x => cases h

/-- A value that is not an integer is a float. -/
theorem eq_float (h : v.toInt? = none) : ∃ t x, v = float t x := by
  cases v with
  | float t x => exact ⟨t, x, rfl⟩
  | _ => cases h

theorem natAbs_lt (hv : v.WellFormed) (h : v.toInt? = some i) : i.natAbs < 2 ^ 64 := by
  cases v with
  | bool b =>
    cases h
    cases b <;> decide
  | int s j =>
    cases h
    obtain ⟨hmin, hmax⟩ := wellFormed_int.mp hv
    have hlow : -2 ^ 63 ≤ s.min := by cases s <;> decide
    have hhigh : s.max < 2 ^ 64 := by cases s <;> decide
    omega
  | float s x => cases h

/-- A float that is no NaN stands for something. -/
theorem exists_extended? (hv : v.isNaN = false) : ∃ r, v.extended? = some r := by
  cases v with
  | float t x =>
    cases Binary64.stands_of_not_nan hv with
    | finite h hbits => exact ⟨_, Binary64.extended?_finite h hbits⟩
    | infinite hbits => exact ⟨_, Binary64.extended?_infinite hbits⟩
  | _ => exact ⟨_, rfl⟩

theorem same_iff (ha : a.isNaN = false) : a.Same b ↔ a.extended? = b.extended? := by
  obtain ⟨r, hr⟩ := exists_extended? ha
  constructor
  · rintro ⟨r, ha, hb⟩
    rw [ha, hb]
  · intro h
    exact ⟨r, hr, h ▸ hr⟩

theorem Same.symm (h : a.Same b) : b.Same a := by
  obtain ⟨r, ha, hb⟩ := h
  exact ⟨r, hb, ha⟩

theorem numericEq_comm (a b : Value) : a.numericEq b = b.numericEq a := by
  have hint : ∀ i j : Int, (i == j) = (j == i) := fun i j => by
    rw [Bool.eq_iff_iff, beq_iff_eq, beq_iff_eq, eq_comm]
  have hfloat : ∀ x y : Binary64, x.eq y = y.eq x := fun x y => by
    rw [Binary64.eq, Binary64.eq, Bool.and_comm (!x.isNaN), decide_eq_decide.mpr eq_comm]
  unfold numericEq
  cases a.toInt? <;> cases b.toInt?
  · exact hfloat ..
  · exact hfloat ..
  · exact hfloat ..
  · exact hint ..

/-! ## Values of one kind -/

theorem numericEq_integers (ha : a.toInt? = some i) (hb : b.toInt? = some j) :
    a.numericEq b = true ↔ a.Same b := by
  simp only [numericEq, ha, hb, Same, extended?_of_toInt? ha, extended?_of_toInt? hb, beq_iff_eq]
  constructor
  · rintro rfl
    exact ⟨_, rfl, rfl⟩
  · rintro ⟨r, hi, hj⟩
    injection hi.trans hj.symm with h
    injection h with h
    exact Int.cast_injective h

theorem numericEq_floats (ha : a.isNaN = false) (hb : b.isNaN = false) (hia : a.toInt? = none)
    (hib : b.toInt? = none) : a.numericEq b = true ↔ a.Same b := by
  rw [same_iff ha]
  obtain ⟨s, x, rfl⟩ := eq_float hia
  obtain ⟨t, y, rfl⟩ := eq_float hib
  exact Binary64.eq_iff_extended? ha hb

/-! ## An integer and a float -/

/-- Unless both are integers, values are compared as floats. -/
theorem numericEq_of_float (h : a.toInt? = none ∨ b.toInt? = none) :
    a.numericEq b = a.toFloat.eq b.toFloat := by
  unfold numericEq
  rcases h with h | h
  · rw [h]
  · rw [h]
    cases a.toInt? <;> rfl

/-- The float is compared to the double that the integer becomes. -/
theorem numericEq_mixed (hwf : a.WellFormed) (ha : a.toInt? = some i) (hb : b.toInt? = none)
    (hnan : b.isNaN = false) (hq : (Binary64.ofInt i).extended? = some (.finite q)) :
    a.numericEq b = true ↔ b.extended? = some (.finite q) := by
  rw [numericEq_of_float (.inr hb), toFloat_of_toInt? ha, ← hq]
  obtain ⟨t, y, rfl⟩ := eq_float hb
  exact (Binary64.eq_iff_extended? (Binary64.isNaN_ofInt (natAbs_lt hwf ha)) hnan).trans eq_comm

/-- An integer equals the float that it becomes, and no other one. -/
theorem numericEq_integer_float (hwf : a.WellFormed) (ha : a.toInt? = some i)
    (hb : b.toInt? = none) (hnan : b.isNaN = false) :
    a.numericEq b = true ↔ a.Same b ∨ a.RoundsTo b := by
  obtain ⟨q, hq, hnearest⟩ := Binary64.exists_nearest (natAbs_lt hwf ha)
  rw [numericEq_mixed hwf ha hb hnan hq]
  have hextended := extended?_of_toInt? ha
  constructor
  · intro hy
    by_cases hqi : q = i
    · exact .inl ⟨_, hextended, by rw [hy, hqi]⟩
    · exact .inr ⟨i, q, ha, hb, hy, hqi, hq⟩
  · rintro (⟨r, hr, hy⟩ | ⟨i', q', ha', -, hy, -, hq'⟩)
    · rw [hextended] at hr
      cases hr
      obtain ⟨t, y, rfl⟩ := eq_float hb
      rw [hy, hnearest.eq_of_extended? hy]
    · cases ha.symm.trans ha'
      rw [hy, ← hq', hq]

/-- The integers that floats stand for have at most 53 digits before their last zeros. -/
theorem exact_iff (hwf : v.WellFormed) (h : v.toInt? = some i) : v.Exact ↔ HasDigits i := by
  rw [Exact, extended?_of_toInt? h]
  constructor
  · rintro ⟨x, hx⟩
    exact Binary64.hasDigits_of_extended? hx
  · intro hdigits
    exact ⟨_, Binary64.extended?_ofInt (natAbs_lt hwf h) hdigits⟩

theorem RoundsTo.nearest (h : a.RoundsTo b) (hwf : a.WellFormed) (ha : a.toInt? = some i)
    (hb : b.extended? = some (.finite q)) : Nearest i q ∧ ¬ a.Exact := by
  obtain ⟨i', q', ha', -, hb', hne, hq⟩ := h
  cases ha.symm.trans ha'
  cases hb.symm.trans hb'
  obtain ⟨q', hq', hnearest⟩ := Binary64.exists_nearest (natAbs_lt hwf ha)
  cases hq.symm.trans hq'
  refine ⟨hnearest, ?_⟩
  rintro ⟨x, hx⟩
  rw [extended?_of_toInt? ha] at hx
  exact hne (hnearest.eq_of_extended? hx)

/-! ## All values -/

theorem RoundsTo.toInt? (h : a.RoundsTo b) : a.toInt? ≠ none ∧ b.toInt? = none := by
  obtain ⟨i, q, ha, hb, -⟩ := h
  rw [ha]
  exact ⟨Option.some_ne_none i, hb⟩

theorem numericEq_iff (ha : a.isNaN = false) (hb : b.isNaN = false) (hwfa : a.WellFormed)
    (hwfb : b.WellFormed) :
    a.numericEq b = true ↔ a.Same b ∨ a.RoundsTo b ∨ b.RoundsTo a := by
  cases hia : a.toInt? with
  | none =>
    have hab : ¬ a.RoundsTo b := fun h => h.toInt?.1 hia
    cases hib : b.toInt? with
    | none =>
      have hba : ¬ b.RoundsTo a := fun h => h.toInt?.1 hib
      simp only [hab, hba, or_false]
      exact numericEq_floats ha hb hia hib
    | some j =>
      have hsame : a.Same b ↔ b.Same a := ⟨Same.symm, Same.symm⟩
      rw [numericEq_comm, numericEq_integer_float hwfb hib hia ha, hsame]
      simp only [hab, false_or]
  | some i =>
    have hba : ¬ b.RoundsTo a := fun h => Option.some_ne_none i (hia.symm.trans h.toInt?.2)
    cases hib : b.toInt? with
    | none =>
      simp only [hba, or_false]
      exact numericEq_integer_float hwfa hia hib hb
    | some j =>
      have hab : ¬ a.RoundsTo b := fun h => Option.some_ne_none j (hib.symm.trans h.toInt?.2)
      simp only [hab, hba, or_false]
      exact numericEq_integers hia hib

theorem RoundsTo.not_exact (h : a.RoundsTo b) (hwf : a.WellFormed) : ¬ a.Exact := by
  obtain ⟨i, q, ha, -, hb, -⟩ := id h
  exact (h.nearest hwf ha hb).2

theorem RoundsTo.isSome (h : a.RoundsTo b) : a.toInt?.isSome ≠ b.toInt?.isSome := by
  obtain ⟨i, q, ha, hb, -⟩ := h
  rw [ha, hb]
  exact Bool.true_eq_false.mp

/-- Values that floats can stand for are compared exactly. -/
theorem numericEq_iff_same (ha : a.isNaN = false) (hb : b.isNaN = false) (hwfa : a.WellFormed)
    (hwfb : b.WellFormed) (hexacta : a.Exact) (hexactb : b.Exact) :
    a.numericEq b = true ↔ a.Same b := by
  rw [numericEq_iff ha hb hwfa hwfb, or_iff_left]
  rintro (h | h)
  · exact h.not_exact hwfa hexacta
  · exact h.not_exact hwfb hexactb

/-- Well-formed values that floats can stand for, and no NaNs. -/
abbrev ExactValue : Type :=
  {v : Value // v.isNaN = false ∧ v.WellFormed ∧ v.Exact}

theorem equivalence_numericEq :
    Equivalence fun a b : ExactValue => a.val.numericEq b.val = true := by
  have hsame : ∀ a b : ExactValue,
      a.val.numericEq b.val = true ↔ a.val.extended? = b.val.extended? := by
    rintro ⟨a, hnana, hwfa, ha⟩ ⟨b, hnanb, hwfb, hb⟩
    exact (numericEq_iff_same hnana hnanb hwfa hwfb ha hb).trans (same_iff hnana)
  refine ⟨fun a => (hsame a a).mpr rfl, fun {a b} h => ?_, fun {a b c} hab hbc => ?_⟩
  · exact (hsame b a).mpr ((hsame a b).mp h).symm
  · exact (hsame a c).mpr (((hsame a b).mp hab).trans ((hsame b c).mp hbc))

/-- Numbers that are equal are equal as floats. -/
theorem toFloat_eq_of_numericEq (hwf : a.WellFormed) (h : a.numericEq b = true) :
    a.toFloat.eq b.toFloat = true := by
  cases hia : a.toInt? with
  | none => rwa [numericEq_of_float (.inl hia)] at h
  | some i => cases hib : b.toInt? with
    | none => rwa [numericEq_of_float (.inr hib)] at h
    | some j =>
      have hij : i = j := by simpa [numericEq, hia, hib] using h
      rw [toFloat_of_toInt? hia, toFloat_of_toInt? hib, hij, Binary64.eq_self,
        Binary64.isNaN_ofInt (natAbs_lt hwf (hij ▸ hia))]
      rfl

theorem numericEq_trans (hwfa : a.WellFormed) (hwfb : b.WellFormed) (hab : a.numericEq b = true)
    (hbc : b.numericEq c = true) :
    a.numericEq c = true ∨
      ∃ i j, a.toInt? = some i ∧ b.toInt? = none ∧ c.toInt? = some j ∧ i ≠ j := by
  by_cases hint : a.toInt? = none ∨ c.toInt? = none
  · have htrans : ∀ x y z : Binary64, x.eq y = true → y.eq z = true → x.eq z = true := by
      intro x y z
      simp only [Binary64.eq, Bool.and_eq_true, Bool.not_eq_true', decide_eq_true_iff]
      rintro ⟨⟨hx, -⟩, hxy⟩ ⟨⟨-, hz⟩, hyz⟩
      exact ⟨⟨hx, hz⟩, hxy.trans hyz⟩
    rw [numericEq_of_float hint]
    exact .inl (htrans _ _ _ (toFloat_eq_of_numericEq hwfa hab) (toFloat_eq_of_numericEq hwfb hbc))
  · obtain ⟨hia, hic⟩ := not_or.mp hint
    obtain ⟨i, hia⟩ := Option.ne_none_iff_exists'.mp hia
    obtain ⟨k, hic⟩ := Option.ne_none_iff_exists'.mp hic
    by_cases hik : i = k
    · exact .inl (by simp [numericEq, hia, hic, hik])
    · refine .inr ⟨i, k, hia, ?_, hic, hik⟩
      cases hib : b.toInt? with
      | none => rfl
      | some j =>
        have hij : i = j := by simpa [numericEq, hia, hib] using hab
        have hjk : j = k := by simpa [numericEq, hib, hic] using hbc
        exact absurd (hij.trans hjk) hik

/-- What the equality of two values says of their numbers. -/
structure Compares (a b : Value) : Prop where
  refl : a.numericEq a = true
  symm : a.numericEq b = b.numericEq a
  equal_iff : a.numericEq b = true ↔ a.Same b ∨ a.RoundsTo b ∨ b.RoundsTo a
  /-- values of one kind are compared exactly -/
  alike : a.toInt?.isSome = b.toInt?.isSome → (a.numericEq b = true ↔ a.Same b)
  /-- and so are those that floats can stand for -/
  exact : a.Exact → b.Exact → (a.numericEq b = true ↔ a.Same b)
  /-- an integer that equals another number has too many digits, and no double is nearer -/
  rounds : a.RoundsTo b → ∀ i q, a.toInt? = some i → b.extended? = some (.finite q) →
    ¬ HasDigits i ∧ Nearest i q
  /-- the equality is transitive but for a float between two integers -/
  trans : ∀ c, a.numericEq b = true → b.numericEq c = true → a.numericEq c = true ∨
    ∃ i j, a.toInt? = some i ∧ b.toInt? = none ∧ c.toInt? = some j ∧ i ≠ j

/-- Values are equal when their numbers are, or one is rounded to the other; and where nothing is
rounded, their equality is an equivalence. -/
theorem numericEq_compares (ha : a.isNaN = false) (hb : b.isNaN = false) (hwfa : a.WellFormed)
    (hwfb : b.WellFormed) :
    Compares a b ∧ Equivalence fun v w : ExactValue => v.val.numericEq w.val = true := by
  have hiff := numericEq_iff ha hb hwfa hwfb
  refine ⟨?_, equivalence_numericEq⟩
  refine ⟨by rw [numericEq_self, ha]; rfl, numericEq_comm a b, hiff, ?_,
    numericEq_iff_same ha hb hwfa hwfb, ?_, fun c => numericEq_trans hwfa hwfb⟩
  · intro hkind
    rw [hiff, or_iff_left]
    rintro (h | h)
    · exact h.isSome hkind
    · exact h.isSome hkind.symm
  · intro h i q hi hq
    obtain ⟨hnearest, hexact⟩ := h.nearest hwfa hi hq
    exact ⟨mt (exact_iff hwfa hi).mpr hexact, hnearest⟩

/-- The least positive integer that no float stands for, and the float that it becomes. -/
theorem numericEq_compares_roundedInteger :
    (int .int64 0x20000000000001).isNaN = false ∧
      (float .float64 ⟨0x4340000000000000⟩).isNaN = false ∧
      (int .int64 0x20000000000001).WellFormed ∧
      (float .float64 ⟨0x4340000000000000⟩).WellFormed ∧
      Compares (int .int64 0x20000000000001) (float .float64 ⟨0x4340000000000000⟩) ∧
      Equivalence fun v w : ExactValue => v.val.numericEq w.val = true :=
  ⟨rfl, by decide, by decide, trivial,
    numericEq_compares rfl (by decide) (by decide) trivial⟩

theorem extended?_twoPow : (float .float64 ⟨0x4340000000000000⟩).extended? =
    some (.finite 0x20000000000000) := by
  have hdatum : (⟨0x4340000000000000⟩ : Binary64).datum = .finite false 0x10000000000000 1 := by
    decide
  rw [extended?, Binary64.extended?, hdatum, Datum.extended?, signed]
  norm_num

/-- A float equals two integers, and stands for one of them only. -/
theorem numericEq_of_different_numbers :
    (int .int64 0x20000000000001).WellFormed ∧
      (float .float64 ⟨0x4340000000000000⟩).WellFormed ∧
      (int .int64 0x20000000000000).WellFormed ∧
      (int .int64 0x20000000000001).isNaN = false ∧
      (float .float64 ⟨0x4340000000000000⟩).isNaN = false ∧
      (int .int64 0x20000000000000).isNaN = false ∧
      (int .int64 0x20000000000001).numericEq (float .float64 ⟨0x4340000000000000⟩) = true ∧
      ¬ (int .int64 0x20000000000001).Same (float .float64 ⟨0x4340000000000000⟩) ∧
      (float .float64 ⟨0x4340000000000000⟩).numericEq (int .int64 0x20000000000000) = true ∧
      (int .int64 0x20000000000001).numericEq (int .int64 0x20000000000000) = false := by
  refine ⟨by decide, trivial, by decide, rfl, by decide, rfl, by decide, ?_, by decide, by decide⟩
  rw [same_iff rfl, extended?_twoPow, extended?]
  norm_num

end Value

end Lockstep
