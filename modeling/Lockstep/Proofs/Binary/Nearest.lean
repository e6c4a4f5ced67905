import Lockstep.Proofs.Binary.Number
import Mathlib.Data.Nat.Dist
import Mathlib.Tactic.FieldSimp
import Mathlib.Tactic.Linarith
import Mathlib.Tactic.Ring

/-!
# Integers as doubles

An integer of at most 64 bits becomes a double that is nearest to it, so one of its own number
if there is such a double.
-/

namespace Lockstep

/-! ## Rounded quotients -/

/-- A quotient is rounded down by at most a half, or up by at most a half. -/
theorem roundShift_cases (n k : Nat) :
    (roundShift n k = n / 2 ^ k ∧ 2 * (n % 2 ^ k) ≤ 2 ^ k) ∨
      (roundShift n k = n / 2 ^ k + 1 ∧ 2 ^ k ≤ 2 * (n % 2 ^ k)) := by
  unfold roundShift
  simp only [Nat.pow_eq]
  split
  next hlow => exact .inl ⟨rfl, hlow.le⟩
  next hlow =>
    split
    next hhigh => exact .inr ⟨rfl, hhigh.le⟩
    next hhigh =>
      rcases Nat.mod_two_eq_zero_or_one (n / 2 ^ k) with heven | hodd
      · exact .inl ⟨by rw [heven, Nat.add_zero], Nat.not_lt.mp hhigh⟩
      · exact .inr ⟨by rw [hodd], Nat.not_lt.mp hlow⟩

/-- How far a number is from the rounded multiple of a power. -/
theorem dist_roundShift (n k : Nat) :
    n.dist (roundShift n k * 2 ^ k) = min (n % 2 ^ k) (2 ^ k - n % 2 ^ k) := by
  have hdiv := Nat.div_add_mod' n (2 ^ k)
  have hmod := Nat.mod_lt n (Nat.two_pow_pos k)
  unfold Nat.dist
  obtain ⟨hr, hle⟩ | ⟨hr, hle⟩ := roundShift_cases n k
  · rw [hr]
    omega
  · rw [hr, Nat.succ_mul]
    omega

/-- No multiple of the power is nearer than the rounded one. -/
theorem dist_roundShift_le (n k j : Nat) :
    n.dist (roundShift n k * 2 ^ k) ≤ n.dist (j * 2 ^ k) := by
  have hdiv := Nat.div_add_mod' n (2 ^ k)
  have hmod := Nat.mod_lt n (Nat.two_pow_pos k)
  rw [dist_roundShift, Nat.dist]
  rcases Nat.lt_or_ge (n / 2 ^ k) j with h | h
  · have hj : (n / 2 ^ k + 1) * 2 ^ k ≤ j * 2 ^ k := Nat.mul_le_mul_right _ h
    rw [Nat.succ_mul] at hj
    omega
  · have hj : j * 2 ^ k ≤ n / 2 ^ k * 2 ^ k := Nat.mul_le_mul_right _ h
    omega

theorem two_mul_dist_roundShift_le (n k : Nat) :
    2 * n.dist (roundShift n k * 2 ^ k) ≤ 2 ^ k := by
  rw [dist_roundShift]
  omega

/-! ## Natural numbers -/

open BinaryFormat

variable {n c k : Nat} {i : Int}

theorem minExponent_double : double.minExponent = -1074 := by decide

/-- The leading digit of a number can be put in place. -/
theorem exists_significand_of_digits {l v : Nat} (hl : l ≤ 52) (hv : v ≤ 901) (hlow : 2 ^ l ≤ n)
    (hhigh : n < 2 * 2 ^ l) : ∃ m u, double.Significand m u ∧
      (m : ℚ) * 2 ^ (double.minExponent + u) = n * 2 ^ v := by
  have hinfinity : double.infinity = 2047 * 2 ^ 52 := by decide
  have hbits : double.fractionBits = 52 := rfl
  obtain ⟨d, hd⟩ : ∃ d, l + d = 52 := ⟨52 - l, by omega⟩
  have hpow : 2 ^ l * 2 ^ d = 2 ^ 52 := by rw [← Nat.pow_add, hd]
  have hlower : 2 ^ 52 ≤ n * 2 ^ d := by
    rw [← hpow]
    exact Nat.mul_le_mul_right _ hlow
  have hupper : n * 2 ^ d < 2 * 2 ^ 52 := by
    rw [← hpow, ← Nat.mul_assoc]
    exact Nat.mul_lt_mul_of_pos_right hhigh (Nat.two_pow_pos d)
  refine ⟨n * 2 ^ d, v + l + 1022, ⟨hupper, .inr hlower, ?_⟩, ?_⟩
  · rw [hinfinity, hbits]
    omega
  · have hexponent : double.minExponent + (v + l + 1022 : Nat) = (v : Int) - d := by
      rw [minExponent_double]
      omega
    rw [hexponent, zpow_sub₀ two_ne_zero, zpow_natCast, zpow_natCast]
    push_cast
    field_simp

/-- A number of at most 53 digits is a double, also with zeros after it. -/
theorem exists_significand_mul_pow (hn : n ≤ 2 ^ 53) (hk : k ≤ 900) :
    ∃ m u, double.Significand m u ∧
      (m : ℚ) * 2 ^ (double.minExponent + u) = n * 2 ^ k := by
  rcases Nat.eq_zero_or_pos n with rfl | hpos
  · exact ⟨0, 0, ⟨by decide, .inl rfl, by decide⟩, by simp⟩
  · rcases Nat.lt_or_eq_of_le hn with hlt | rfl
    · have hne : n ≠ 0 := Nat.ne_of_gt hpos
      have hlog : n.log2 < 53 := (Nat.log2_lt hne).mpr hlt
      have hhigh : n < 2 * 2 ^ n.log2 := by
        rw [← Nat.pow_succ']
        exact Nat.lt_log2_self
      exact exists_significand_of_digits (by omega) (by omega) (Nat.log2_self_le hne) hhigh
    · obtain ⟨m, u, h, hnumber⟩ := exists_significand_of_digits (n := 2 ^ 52) (v := k + 1) le_rfl
        (by omega) le_rfl (by decide)
      refine ⟨m, u, h, hnumber.trans ?_⟩
      push_cast
      ring

/-- The number of a word by its unit in the last place. -/
theorem magnitude_of_unit {m : Nat} {e : Int} (unit : Int) (u : Nat) (hm : m ≠ 0)
    (hunit : max (e + m.log2 - 52) (-1074) = unit) (hu : unit + 1074 = u) :
    double.magnitude m e = min (u * 2 ^ 52 +
      if unit ≤ e then m * 2 ^ (e - unit).toNat else roundShift m (unit - e).toNat)
        double.infinity := by
  have hbits : double.fractionBits = 52 := rfl
  unfold magnitude
  rw [if_neg hm, hbits, minExponent_double]
  simp only [Nat.cast_ofNat, hunit, Nat.pow_eq]
  have hplace : (unit - -1074).toNat = u := by omega
  rw [hplace]

theorem roundShift_bounds (hlow : 2 ^ 52 * 2 ^ k ≤ n) (hhigh : n < 2 ^ 53 * 2 ^ k) :
    2 ^ 52 ≤ roundShift n k ∧ roundShift n k ≤ 2 ^ 53 := by
  have hpos : 0 < 2 ^ k := Nat.two_pow_pos k
  have hquot : 2 ^ 52 ≤ n / 2 ^ k := (Nat.le_div_iff_mul_le hpos).mpr hlow
  have hquot' : n / 2 ^ k < 2 ^ 53 := (Nat.div_lt_iff_lt_mul hpos).mpr hhigh
  obtain ⟨hr, -⟩ | ⟨hr, -⟩ := roundShift_cases n k
  · omega
  · omega

/-- The fields of a rounded significand, also when it has a digit too many. -/
theorem magnitude_of_rounded {q : Nat} (hlow : 2 ^ 52 ≤ q) (hhigh : q ≤ 2 ^ 53) :
    double.magnitude q k = min ((k + 1074) * 2 ^ 52 + q) double.infinity := by
  rcases Nat.lt_or_eq_of_le hhigh with hlt | rfl
  · have hlog : q.log2 = 52 := by
      rw [Nat.log2_eq_iff (by omega)]
      exact ⟨hlow, hlt⟩
    rw [magnitude_of_unit k (k + 1074) (by omega) (by omega) rfl,
      if_pos le_rfl, Int.sub_self, Int.toNat_zero, Nat.pow_zero, Nat.mul_one]
  · have hlog : (2 ^ 53).log2 = 53 := Nat.log2_two_pow
    have hhalf : roundShift (2 ^ 53) 1 = 2 ^ 52 := by decide
    have hshift : ((k + 1 : Int) - k).toNat = 1 := by omega
    have hcarry : (k + 1075) * 2 ^ 52 + 2 ^ 52 = (k + 1074) * 2 ^ 52 + 2 ^ 53 := by omega
    rw [magnitude_of_unit (k + 1) (k + 1075) (by decide) (by omega) (by omega),
      if_neg (by omega), hshift, hhalf, hcarry]

/-- The significand of a number is rounded to 53 digits. -/
theorem magnitude_eq_rounded (hlow : 2 ^ 52 * 2 ^ k ≤ n) (hhigh : n < 2 ^ 53 * 2 ^ k)
    (hk : 0 < k) : double.magnitude n 0 = double.magnitude (roundShift n k) k := by
  have hn : n ≠ 0 := by
    have : 0 < 2 ^ 52 * 2 ^ k := Nat.mul_pos (by decide) (Nat.two_pow_pos k)
    omega
  have hlog : n.log2 = 52 + k := by
    rw [Nat.log2_eq_iff hn, Nat.pow_add, Nat.add_right_comm, Nat.pow_add]
    exact ⟨hlow, hhigh⟩
  obtain ⟨hround, hround'⟩ := roundShift_bounds hlow hhigh
  rw [magnitude_of_rounded hround hround', magnitude_of_unit k (k + 1074) hn (by omega) rfl,
    if_neg (by omega), sub_zero, Int.toNat_natCast]

/-- The word of `n` is that of the natural number `c`, and no double is nearer to `n`. -/
structure NearestNatural (n c : Nat) : Prop where
  word : ∃ m u, double.Significand m u ∧
    double.magnitude n 0 = u * 2 ^ double.fractionBits + m ∧
      (m : ℚ) * 2 ^ (double.minExponent + u) = c
  error : 2 ^ 53 * n.dist c ≤ n
  nearest : ∀ m u, double.Significand m u →
    (n.dist c : ℚ) ≤ |(m : ℚ) * 2 ^ (double.minExponent + u) - n|

theorem cast_dist (a b : Nat) : (a.dist b : ℚ) = |(b : ℚ) - a| := by
  rcases Nat.le_total a b with h | h
  · have hcast : (a : ℚ) ≤ b := by exact_mod_cast h
    rw [Nat.dist_eq_sub_of_le h, Nat.cast_sub h, abs_of_nonneg (sub_nonneg.mpr hcast)]
  · have hcast : (b : ℚ) ≤ a := by exact_mod_cast h
    rw [Nat.dist_eq_sub_of_le_right h, Nat.cast_sub h, abs_of_nonpos (sub_nonpos.mpr hcast),
      neg_sub]

/-- The word of a number that is a double. -/
theorem BinaryFormat.Significand.word {m u : Nat} (h : double.Significand m u)
    (hnumber : (m : ℚ) * 2 ^ (double.minExponent + u) = c) :
    double.magnitude c 0 = u * 2 ^ double.fractionBits + m := by
  rw [← h.magnitude_eq]
  refine double.magnitude_congr ?_
  rw [hnumber, zpow_zero, mul_one]

/-- A double of at least a power of two is a multiple of its unit in the last place. -/
theorem exists_multiple {m u : Nat} (h : double.Significand m u)
    (hlow : (2 : ℚ) ^ (52 + k) ≤ m * 2 ^ (double.minExponent + u)) :
    ∃ j : Nat, (m : ℚ) * 2 ^ (double.minExponent + u) = (j * 2 ^ k : Nat) := by
  have hm : (m : ℚ) < 2 ^ 53 := by
    have hlt : m < 2 ^ 53 := h.lt
    exact_mod_cast hlt
  have hunit : (k : Int) ≤ double.minExponent + u := by
    by_contra hlt
    have hpow : (2 : ℚ) ^ (double.minExponent + u) ≤ 2 ^ ((k : Int) - 1) :=
      zpow_le_zpow_right₀ one_le_two (by omega)
    have hbound : (m : ℚ) * 2 ^ (double.minExponent + u) < 2 ^ 53 * 2 ^ ((k : Int) - 1) :=
      mul_lt_mul hm hpow (by positivity) (by positivity)
    have htop : (2 : ℚ) ^ 53 * 2 ^ ((k : Int) - 1) = 2 ^ (52 + k) := by
      rw [zpow_sub₀ two_ne_zero, zpow_natCast]
      ring
    exact absurd (hlow.trans_lt (hbound.trans_eq htop)) (lt_irrefl _)
  obtain ⟨d, hd⟩ := Int.le.dest hunit
  refine ⟨m * 2 ^ d, ?_⟩
  rw [← hd, zpow_add₀ two_ne_zero, zpow_natCast, zpow_natCast]
  push_cast
  ring

/-- No double is nearer than the rounded number. -/
theorem dist_roundShift_le_double {m u : Nat} (hlow : 2 ^ 52 * 2 ^ k ≤ n)
    (h : double.Significand m u) : (n.dist (roundShift n k * 2 ^ k) : ℚ) ≤
      |(m : ℚ) * 2 ^ (double.minExponent + u) - n| := by
  by_cases hbinade : (2 : ℚ) ^ (52 + k) ≤ m * 2 ^ (double.minExponent + u)
  · obtain ⟨j, hj⟩ := exists_multiple h hbinade
    rw [hj, ← cast_dist]
    exact_mod_cast dist_roundShift_le n k j
  · -- a double of a lower binade is further away than the power of two between them
    have hle : n.dist (roundShift n k * 2 ^ k) ≤ n - 2 ^ 52 * 2 ^ k := by
      rw [← Nat.dist_eq_sub_of_le_right hlow]
      exact dist_roundShift_le n k (2 ^ 52)
    have hcast : (n.dist (roundShift n k * 2 ^ k) : ℚ) ≤ n - 2 ^ (52 + k) := by
      have hle' := Nat.cast_le (α := ℚ).mpr hle
      rw [Nat.cast_sub hlow] at hle'
      rw [pow_add]
      exact_mod_cast hle'
    rw [abs_sub_comm]
    exact hcast.trans ((sub_le_sub_left (not_le.mp hbinade).le _).trans (le_abs_self _))

theorem exists_binade (hlow : 2 ^ 53 ≤ n) (hhigh : n < 2 ^ 64) :
    ∃ k, 0 < k ∧ k < 12 ∧ 2 ^ 52 * 2 ^ k ≤ n ∧ n < 2 ^ 53 * 2 ^ k := by
  have hne : n ≠ 0 := by omega
  have hmin : 53 ≤ n.log2 := (Nat.le_log2 hne).mpr hlow
  have hmax : n.log2 < 64 := (Nat.log2_lt hne).mpr hhigh
  obtain ⟨k, hk⟩ : ∃ k, n.log2 = 52 + k := ⟨n.log2 - 52, by omega⟩
  refine ⟨k, by omega, by omega, ?_, ?_⟩
  · rw [← Nat.pow_add, ← hk]
    exact Nat.log2_self_le hne
  · have hlt : n < 2 ^ (n.log2 + 1) := Nat.lt_log2_self
    rwa [hk, Nat.add_right_comm, Nat.pow_add] at hlt

theorem exists_nearestNatural (hn : n < 2 ^ 64) : ∃ c, NearestNatural n c := by
  rcases Nat.lt_or_ge n (2 ^ 53) with hsmall | hlarge
  · obtain ⟨m, u, h, hnumber⟩ := exists_significand_mul_pow hsmall.le (Nat.zero_le 900)
    rw [pow_zero, mul_one] at hnumber
    refine ⟨n, ⟨m, u, h, h.word hnumber, hnumber⟩, ?_, fun m u _ => ?_⟩
    · rw [Nat.dist_self]
      exact Nat.zero_le n
    · rw [Nat.dist_self, Nat.cast_zero]
      exact abs_nonneg _
  · obtain ⟨k, hpos, hsize, hlow, hhigh⟩ := exists_binade hlarge hn
    have hround := (roundShift_bounds hlow hhigh).2
    obtain ⟨m, u, h, hnumber⟩ := exists_significand_mul_pow hround (by omega : k ≤ 900)
    refine ⟨roundShift n k * 2 ^ k, ⟨m, u, h, ?_, ?_⟩, ?_,
      fun m' u' h' => dist_roundShift_le_double hlow h'⟩
    · rw [magnitude_eq_rounded hlow hhigh hpos, ← h.magnitude_eq]
      refine double.magnitude_congr ?_
      rw [hnumber, zpow_natCast]
    · rw [hnumber]
      push_cast
      rfl
    · have hhalf := two_mul_dist_roundShift_le n k
      omega

/-! ## Integers -/

namespace Binary64

variable {x : Binary64}

/-- `q` is the number of a double, and no double is nearer to the integer. -/
structure Nearest (i : Int) (q : ℚ) : Prop where
  /-- the error is less than one in the 53 digits of a double -/
  error : 2 ^ 53 * |q - i| ≤ |(i : ℚ)|
  le : ∀ (y : Binary64) r, y.extended? = some (.finite r) → |q - i| ≤ |r - i|

theorem cast_natAbs (i : Int) : (i.natAbs : ℚ) = |(i : ℚ)| := by
  rw [Nat.cast_natAbs, Int.cast_abs]

theorem signed_natAbs (i : Int) : signed (decide (i < 0)) (i.natAbs : ℚ) = i := by
  rw [cast_natAbs, signed]
  by_cases h : i < 0
  · have hcast : (i : ℚ) < 0 := by exact_mod_cast h
    rw [decide_eq_true h, if_pos rfl, abs_of_neg hcast, neg_neg]
  · have hcast : 0 ≤ (i : ℚ) := by exact_mod_cast Int.not_lt.mp h
    rw [decide_eq_false h, if_neg Bool.false_ne_true, abs_of_nonneg hcast]

theorem toNat_bits_ofInt {n : Nat} (h : double.magnitude i.natAbs 0 = n) :
    (ofInt i).bits.toNat = double.pack (decide (i < 0)) n := by
  rw [ofInt, toNat_ofDatum, ← h]
  rfl

/-- An integer becomes a double that is nearest to it. -/
theorem exists_nearest (hi : i.natAbs < 2 ^ 64) :
    ∃ q, (ofInt i).extended? = some (.finite q) ∧ Nearest i q := by
  obtain ⟨c, ⟨m, u, h, hword, hnumber⟩, herror, hnearest⟩ := exists_nearestNatural hi
  have hdist : |signed (decide (i < 0)) (c : ℚ) - i| = i.natAbs.dist c := by
    rw [cast_dist]
    conv_lhs => rw [← signed_natAbs i]
    by_cases hneg : i < 0
    · rw [decide_eq_true hneg, signed, signed, if_pos rfl, if_pos rfl, neg_sub_neg, abs_sub_comm]
    · rw [decide_eq_false hneg]
      rfl
  refine ⟨signed (decide (i < 0)) c, ?_, ?_, fun y r hr => ?_⟩
  · rw [extended?_finite h (toNat_bits_ofInt hword), hnumber]
  · rw [hdist, ← cast_natAbs]
    exact_mod_cast herror
  · obtain ⟨s, m', u', h', rfl⟩ := exists_significand_of_extended? hr
    have hfar := abs_abs_sub_abs_le_abs_sub (signed s ((m' : ℚ) * 2 ^ (double.minExponent + u'))) i
    rw [abs_signed s (by positivity), ← cast_natAbs] at hfar
    rw [hdist]
    exact (hnearest m' u' h').trans hfar

/-- What becomes of an integer is no NaN. -/
theorem isNaN_ofInt (hi : i.natAbs < 2 ^ 64) : (ofInt i).isNaN = false := by
  obtain ⟨q, hq, -⟩ := exists_nearest hi
  by_contra h
  rw [extended?_of_isNaN (eq_true_of_ne_false h)] at hq
  cases hq

/-- Nothing is nearer to the number of a double than itself. -/
theorem Nearest.eq_of_extended? {q : ℚ} (h : Nearest i q) (hx : x.extended? = some (.finite i)) :
    q = i := by
  have hzero : (i : ℚ) - i = 0 := sub_eq_zero.mpr rfl
  have hle : |q - i| ≤ |(i : ℚ) - i| := h.le x i hx
  rw [hzero, abs_zero] at hle
  exact sub_eq_zero.mp (abs_eq_zero.mp (hle.antisymm (abs_nonneg _)))

/-- Without its last zeros, the integer has at most 53 digits. -/
def HasDigits (i : Int) : Prop :=
  ∃ c k, c ≤ 2 ^ 53 ∧ i.natAbs = c * 2 ^ k

/-- Such an integer becomes a double of its own number. -/
theorem extended?_ofInt (hi : i.natAbs < 2 ^ 64) (h : HasDigits i) :
    (ofInt i).extended? = some (.finite i) := by
  obtain ⟨c, k, hc, hdigits⟩ := h
  obtain ⟨m, u, h, hnumber⟩ : ∃ m u, double.Significand m u ∧
      (m : ℚ) * 2 ^ (double.minExponent + u) = i.natAbs := by
    rcases Nat.eq_zero_or_pos c with rfl | hpos
    · rw [hdigits]
      exact ⟨0, 0, ⟨by decide, .inl rfl, by decide⟩, by simp⟩
    · have hlt : 2 ^ k < 2 ^ 64 :=
        (Nat.le_mul_of_pos_left _ hpos).trans_lt (hdigits.symm.trans_lt hi)
      have hk : k < 64 := (Nat.pow_lt_pow_iff_right Nat.one_lt_two).mp hlt
      rw [hdigits]
      push_cast
      exact exists_significand_mul_pow hc (by omega)
  rw [extended?_finite h (toNat_bits_ofInt (h.word hnumber)), hnumber, signed_natAbs]

/-- No other integers are numbers of doubles. -/
theorem hasDigits_of_extended? (hx : x.extended? = some (.finite i)) : HasDigits i := by
  obtain ⟨s, m, u, h, hnumber⟩ := exists_significand_of_extended? hx
  have habs : (i.natAbs : ℚ) = m * 2 ^ (double.minExponent + u) := by
    rw [cast_natAbs, hnumber, abs_signed s (by positivity)]
  have hm : m < 2 ^ 53 := h.lt
  rcases Int.le_total 0 (double.minExponent + u) with hexponent | hexponent
  · obtain ⟨k, hk⟩ := Int.eq_ofNat_of_zero_le hexponent
    rw [hk, zpow_natCast] at habs
    exact ⟨m, k, hm.le, by exact_mod_cast habs⟩
  · obtain ⟨k, hk⟩ := Int.eq_ofNat_of_zero_le (Int.neg_nonneg_of_nonpos hexponent)
    have hmul : i.natAbs * 2 ^ k = m := by
      rw [Int.neg_eq_comm] at hk
      rw [← hk, zpow_neg, zpow_natCast, ← div_eq_mul_inv,
        eq_div_iff (by positivity)] at habs
      exact_mod_cast habs
    refine ⟨i.natAbs, 0, ?_, (Nat.mul_one _).symm⟩
    exact (Nat.le_mul_of_pos_right _ (Nat.two_pow_pos k)).trans (hmul.trans_le hm.le)

end Binary64

end Lockstep
