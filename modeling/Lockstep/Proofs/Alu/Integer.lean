import Lockstep.Proofs.Alu.Range
import Mathlib.Data.Int.Bitwise
import Mathlib.Data.Rat.Floor

/-!
# Integer arithmetic behind the operations

The floored quotient is the floor of the rational one, and exclusive or on the
words of a type is exclusive or on the integers.
-/

namespace Lockstep.Alu

theorem floor_div (i : Int) {j : Int} (hj : j ≠ 0) : ⌊(i / j : ℚ)⌋ = i.fdiv j := by
  rcases lt_or_gt_of_ne hj with hneg | hpos
  · obtain ⟨n, hn⟩ := Int.eq_ofNat_of_zero_le (show 0 ≤ -j by omega)
    have hjn : j = -(n : Int) := by omega
    have hquot : (i / j : ℚ) = ((-i : Int) : ℚ) / (n : ℚ) := by
      rw [hjn]
      push_cast
      rw [div_neg, neg_div]
    rw [hquot, Rat.floor_intCast_div_natCast, ← Int.neg_fdiv_neg, hn,
      Int.fdiv_eq_ediv_of_nonneg _ (by omega)]
  · obtain ⟨n, rfl⟩ := Int.eq_ofNat_of_zero_le hpos.le
    rw [Int.fdiv_eq_ediv_of_nonneg _ hpos.le, Int.cast_natCast, Rat.floor_intCast_div_natCast]

/-! ## Exclusive or -/

/-- Words of any width agree with the integers they are cut from. -/
theorem ofInt_xor (w : Nat) (i j : Int) :
    BitVec.ofInt w i ^^^ BitVec.ofInt w j = BitVec.ofInt w (Int.xor i j) := by
  cases i with
  | ofNat m =>
    cases j with
    | ofNat n => exact BitVec.ofNat_xor.symm
    | negSucc n =>
      change BitVec.ofNat w m ^^^ BitVec.ofInt w (.negSucc n) = BitVec.ofInt w (.negSucc (m ^^^ n))
      rw [BitVec.ofInt_negSucc_eq_not_ofNat, BitVec.ofInt_negSucc_eq_not_ofNat, BitVec.ofNat_xor,
        BitVec.not_xor_right]
  | negSucc m =>
    cases j with
    | ofNat n =>
      change BitVec.ofInt w (.negSucc m) ^^^ BitVec.ofNat w n = BitVec.ofInt w (.negSucc (m ^^^ n))
      rw [BitVec.ofInt_negSucc_eq_not_ofNat, BitVec.ofInt_negSucc_eq_not_ofNat, BitVec.ofNat_xor,
        BitVec.not_xor_left]
    | negSucc n =>
      change BitVec.ofInt w (.negSucc m) ^^^ BitVec.ofInt w (.negSucc n) = BitVec.ofNat w (m ^^^ n)
      rw [BitVec.ofInt_negSucc_eq_not_ofNat, BitVec.ofInt_negSucc_eq_not_ofNat, BitVec.ofNat_xor,
        ← BitVec.not_xor_left, ← BitVec.not_xor_right, BitVec.not_not]

/-- Exclusive or stays within a range of two's complement numerals. -/
theorem xor_bounds {k : Nat} {i j : Int} (hi : -(2 ^ k : Nat) ≤ i ∧ i < (2 ^ k : Nat))
    (hj : -(2 ^ k : Nat) ≤ j ∧ j < (2 ^ k : Nat)) :
    -(2 ^ k : Nat) ≤ Int.xor i j ∧ Int.xor i j < (2 ^ k : Nat) := by
  have hxor : ∀ m n : Nat, m < 2 ^ k → n < 2 ^ k → m ^^^ n < 2 ^ k :=
    fun _ _ hm hn => Nat.xor_lt_two_pow hm hn
  generalize 2 ^ k = b at *
  cases i with
  | ofNat m =>
    cases j with
    | ofNat n =>
      simp only [Int.ofNat_eq_natCast, Int.xor] at *
      have := hxor m n (by omega) (by omega)
      omega
    | negSucc n =>
      simp only [Int.ofNat_eq_natCast, Int.xor] at *
      have := hxor m n (by omega) (by omega)
      omega
  | negSucc m =>
    cases j with
    | ofNat n =>
      simp only [Int.ofNat_eq_natCast, Int.xor] at *
      have := hxor m n (by omega) (by omega)
      omega
    | negSucc n =>
      simp only [Int.xor] at *
      have := hxor m n (by omega) (by omega)
      omega

theorem signed_contains_iff {t : IntType} (hs : t.isSigned = true) {i : Int} :
    t.contains i = true ↔ -(2 ^ (t.bits - 1) : Nat) ≤ i ∧ i < (2 ^ (t.bits - 1) : Nat) := by
  rw [IntType.contains_iff]
  cases t <;> simp [IntType.isSigned] at hs <;>
    simp [IntType.min, IntType.max, IntType.isSigned, IntType.bits, IntType.size] <;> omega

theorem contains_xor {t : IntType} (hs : t.isSigned = true) {i j : Int}
    (hi : t.contains i = true) (hj : t.contains j = true) :
    t.contains (Int.xor i j) = true := by
  rw [signed_contains_iff hs] at hi hj ⊢
  exact xor_bounds hi hj

/-- A number in the range of a signed type is the reading of its own word. -/
theorem toInt_ofInt_of_contains {t : IntType} (hs : t.isSigned = true) {i : Int}
    (hi : t.contains i = true) : (BitVec.ofInt t.bits i).toInt = i := by
  rw [IntType.contains_iff] at hi
  rw [BitVec.toInt_ofInt]
  cases t <;> simp [IntType.isSigned] at hs <;>
    simp [IntType.min, IntType.max, IntType.isSigned, IntType.bits, IntType.size] at hi ⊢ <;>
    exact Int.bmod_eq_of_le (by omega) (by omega)

theorem xorWords_eq {t : IntType} (hs : t.isSigned = true) {i j : Int}
    (hi : t.contains i = true) (hj : t.contains j = true) :
    xorWords t.bits i j = Int.xor i j := by
  rw [xorWords, ofInt_xor]
  exact toInt_ofInt_of_contains hs (contains_xor hs hi hj)

end Lockstep.Alu
