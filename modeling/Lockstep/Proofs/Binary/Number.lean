import Lockstep.Proofs.Binary.Exact
import Mathlib.Algebra.Order.Field.Basic
import Mathlib.Algebra.Order.Field.Power
import Mathlib.Algebra.Order.Ring.Rat
import Mathlib.Tactic.Positivity.Basic

/-!
# The numbers of doubles

A double that is no NaN stands for a rational number or for an infinity. Two of them are equal
just when they stand for the same, so the only different words of one number are the zeros.
-/

namespace Lockstep

/-- A rational number or an infinity. -/
inductive Extended where
  | finite (q : ℚ)
  | infinite (negative : Bool)
  deriving DecidableEq

/-! ## Signs -/

section

variable {α : Type} [AddCommGroup α] [LinearOrder α] [IsOrderedAddMonoid α] {a b : α} {s t : Bool}

/-- The number with this sign and absolute value. -/
def signed (s : Bool) (a : α) : α := if s then -a else a

theorem abs_signed (s : Bool) (ha : 0 ≤ a) : |signed s a| = a := by
  cases s
  · exact abs_of_nonneg ha
  · exact (abs_neg a).trans (abs_of_nonneg ha)

/-- Only zero has two signs. -/
theorem signed_eq_signed (ha : 0 ≤ a) (hb : 0 ≤ b) :
    signed s a = signed t b ↔ a = b ∧ (s = t ∨ a = 0) := by
  constructor
  · intro h
    have hab : a = b := by rw [← abs_signed s ha, h, abs_signed t hb]
    subst hab
    refine ⟨rfl, ?_⟩
    cases s <;> cases t
    · exact .inl rfl
    · exact .inr (self_eq_neg.mp h)
    · exact .inr (neg_eq_self.mp h)
    · exact .inl rfl
  · rintro ⟨rfl, rfl | rfl⟩
    · rfl
    · cases s <;> cases t <;> simp [signed]

end

/-- The number or the infinity that a datum stands for; a NaN stands for neither. -/
def Datum.extended? : Datum → Option Extended
  | finite s m e => some (.finite (signed s (m * 2 ^ e)))
  | infinite s => some (.infinite s)
  | nan _ _ => none

namespace BinaryFormat

variable {f : BinaryFormat} {m m' u u' n : Nat} {e e' : Int}

/-! ## Words of the same number -/

/-- Significands and exponents of one number have one nearest word. -/
theorem magnitude_congr (f : BinaryFormat) (h : (m : ℚ) * 2 ^ e = m' * 2 ^ e') :
    f.magnitude m e = f.magnitude m' e' := by
  wlog hle : e ≤ e' generalizing m m' e e'
  · exact (this h.symm (Int.le_of_lt (Int.not_le.mp hle))).symm
  obtain ⟨k, rfl⟩ := Int.le.dest hle
  have hpos : (2 : ℚ) ^ e ≠ 0 := zpow_ne_zero e two_ne_zero
  have hm : m = m' * 2 ^ k := by
    rw [zpow_add₀ two_ne_zero, zpow_natCast, mul_left_comm, mul_comm (m : ℚ)] at h
    exact_mod_cast mul_left_cancel₀ hpos h
  rw [hm, magnitude_mul_pow]

namespace Significand

variable (h : f.Significand m u)

include h

/-- The word is that of zero just when the number is zero. -/
theorem word_eq_zero_iff : u * 2 ^ f.fractionBits + m = 0 ↔ m = 0 := by
  have hpos : 0 < 2 ^ f.fractionBits := Nat.two_pow_pos _
  constructor
  · exact fun hword => (Nat.add_eq_zero_iff.mp hword).2
  · rintro rfl
    obtain rfl : u = 0 := h.normal.resolve_right (Nat.not_le_of_lt hpos)
    rw [Nat.zero_mul]

theorem word_eq_iff (h' : f.Significand m' u') :
    u * 2 ^ f.fractionBits + m = u' * 2 ^ f.fractionBits + m' ↔
      (m : ℚ) * 2 ^ (f.minExponent + u) = m' * 2 ^ (f.minExponent + u') := by
  constructor
  · intro hword
    have hdecode := h.decode_pack false
    rw [hword, h'.decode_pack false] at hdecode
    injection hdecode with _ hm he
    rw [hm, he]
  · intro hnumber
    rw [← h.magnitude_eq, ← h'.magnitude_eq]
    exact f.magnitude_congr hnumber

end Significand

end BinaryFormat

/-! ## Doubles -/

namespace Binary64

open BinaryFormat

variable {x y : Binary64} {s t : Bool} {m u n : Nat} {i : Int}

/-- The number or the infinity that a double stands for. -/
def extended? (x : Binary64) : Option Extended :=
  x.datum.extended?

/-- The word of a finite number or of an infinity. -/
inductive Stands (x : Binary64) : Prop
  | finite {s : Bool} {m u : Nat} (h : double.Significand m u)
      (hbits : x.bits.toNat = double.pack s (u * 2 ^ double.fractionBits + m))
  | infinite {s : Bool} (hbits : x.bits.toNat = double.pack s double.infinity)

theorem magnitude_of_bits (hn : n < double.signBit) (h : x.bits.toNat = double.pack s n) :
    x.magnitude = n := by
  rw [magnitude, h]
  exact pack_mod hn s

theorem key_of_bits (hn : n < double.signBit) (h : x.bits.toNat = double.pack s n) :
    x.key = signed s (n : Int) := by
  have hbit : double.signBit = 0x8000000000000000 := by decide
  have hnegative : x.negative = s := by
    rw [negative, h, pack]
    cases s
    · exact decide_eq_false (by simp only [Bool.false_eq_true, if_false]; omega)
    · exact decide_eq_true (by simp only [if_true]; omega)
  rw [key, hnegative, magnitude_of_bits hn h, signed]

/-- What is no NaN stands for something. -/
theorem stands_of_not_nan (hx : x.isNaN = false) : x.Stands := by
  have hlt : x.bits.toNat < 2 * double.signBit := x.bits.toNat_lt
  obtain ⟨s, n, hn, hbits⟩ := exists_pack hlt
  have hle : n ≤ double.infinity := by
    rw [← magnitude_of_bits hn hbits]
    exact Nat.le_of_not_lt (of_decide_eq_false hx)
  rcases Nat.lt_or_eq_of_le hle with hfinite | rfl
  · obtain ⟨m, u, h, rfl⟩ := exists_significand hfinite
    exact .finite h hbits
  · exact .infinite hbits

theorem extended?_finite (h : double.Significand m u)
    (hbits : x.bits.toNat = double.pack s (u * 2 ^ double.fractionBits + m)) :
    x.extended? = some (.finite (signed s (m * 2 ^ (double.minExponent + u)))) := by
  rw [extended?, datum, hbits, h.decode_pack]
  rfl

theorem extended?_infinite (hbits : x.bits.toNat = double.pack s double.infinity) :
    x.extended? = some (.infinite s) := by
  rw [extended?, datum, hbits, decode_infinity]
  rfl

/-- A NaN stands for nothing. -/
theorem extended?_of_isNaN (hx : x.isNaN = true) : x.extended? = none := by
  have hlt : x.bits.toNat < 2 * double.signBit := x.bits.toNat_lt
  obtain ⟨s, n, hn, hbits⟩ := exists_pack hlt
  have hnan : double.infinity < n := by
    rw [← magnitude_of_bits hn hbits]
    exact of_decide_eq_true hx
  obtain ⟨payload, hdecode⟩ := exists_decode_nan hn hnan s
  rw [extended?, datum, hbits, hdecode]
  rfl

/-- A double of a finite number has a significand. -/
theorem exists_significand_of_extended? {q : ℚ} (h : x.extended? = some (.finite q)) :
    ∃ s m u, double.Significand m u ∧ q = signed s ((m : ℚ) * 2 ^ (double.minExponent + u)) := by
  have hx : x.isNaN = false := by
    by_contra hnan
    rw [extended?_of_isNaN (eq_true_of_ne_false hnan)] at h
    cases h
  cases stands_of_not_nan hx with
  | @finite s m u hm hbits =>
    rw [extended?_finite hm hbits] at h
    cases h
    exact ⟨s, m, u, hm, rfl⟩
  | infinite hbits =>
    rw [extended?_infinite hbits] at h
    cases h

/-- Doubles that are no NaNs are equal when they stand for the same. -/
theorem eq_iff_extended? (hx : x.isNaN = false) (hy : y.isNaN = false) :
    x.eq y = true ↔ x.extended? = y.extended? := by
  have hkey : x.eq y = true ↔ x.key = y.key := by simp [eq, hx, hy]
  have hinfinity := double.infinity_lt_signBit
  rw [hkey]
  cases stands_of_not_nan hx with
  | @finite s m u h hbits =>
    rw [key_of_bits h.lt_signBit hbits, extended?_finite h hbits]
    cases stands_of_not_nan hy with
    | @finite t m' u' h' hbits' =>
      rw [key_of_bits h'.lt_signBit hbits', extended?_finite h' hbits', Option.some.injEq,
        Extended.finite.injEq, signed_eq_signed (Int.natCast_nonneg _) (Int.natCast_nonneg _),
        signed_eq_signed (by positivity) (by positivity), ← h.word_eq_iff h', Int.natCast_inj,
        Int.natCast_eq_zero, h.word_eq_zero_iff]
      simp [zpow_ne_zero]
    | infinite hbits' =>
      rw [key_of_bits hinfinity hbits', extended?_infinite hbits',
        signed_eq_signed (Int.natCast_nonneg _) (Int.natCast_nonneg _), Int.natCast_inj]
      simp [h.finite.ne]
  | infinite hbits =>
    rw [key_of_bits hinfinity hbits, extended?_infinite hbits]
    cases stands_of_not_nan hy with
    | @finite t m' u' h' hbits' =>
      rw [key_of_bits h'.lt_signBit hbits', extended?_finite h' hbits',
        signed_eq_signed (Int.natCast_nonneg _) (Int.natCast_nonneg _), Int.natCast_inj]
      simp [h'.finite.ne']
    | infinite hbits' =>
      have hne : double.infinity ≠ 0 := by decide
      rw [key_of_bits hinfinity hbits', extended?_infinite hbits',
        signed_eq_signed (Int.natCast_nonneg _) (Int.natCast_nonneg _), Int.natCast_eq_zero]
      simp [hne]

end Binary64

end Lockstep
