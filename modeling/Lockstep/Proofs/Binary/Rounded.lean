import Lockstep.Binary.Binary64
import Mathlib.Algebra.Group.Nat.Defs

/-!
# Rounded operations

The rounded operations take their operands apart into sign, significand and exponent and put
the result together again. Only a NaN is changed by that, so what an operation gives is read
off the parts: a number less itself is zero, and infinity less itself is no number; infinity
less any other number is infinity of one of the signs; and no product of numbers that are not
negative is negative.
-/

namespace Lockstep

open Float.Model (UnpackedFloat Format)
open Float.Model.UnpackedFloat

/-! ## Words and their parts -/

theorem toNat_packComponents (s : Sign) (e : BitVec 11) (m : BitVec 52) :
    (packComponents .binary64 s e m).toNat =
      s.toBitVec.toNat * 2 ^ 63 + e.toNat * 2 ^ 52 + m.toNat := by
  have hhigh : (s.toBitVec ++ e).toNat = s.toBitVec.toNat * 2 ^ 11 + e.toNat := by
    rw [BitVec.toNat_append, ← Nat.shiftLeft_add_eq_or_of_lt e.isLt, Nat.shiftLeft_eq]
  have hword : (packComponents .binary64 s e m).toNat =
      (s.toBitVec ++ e).toNat * 2 ^ 52 + m.toNat := by
    rw [packComponents, BitVec.toNat_append, ← Nat.shiftLeft_add_eq_or_of_lt m.isLt,
      Nat.shiftLeft_eq]
  rw [hword, hhigh]
  omega

/-- The word of a finite number. What is too great for its exponent field is infinite. -/
theorem toNat_pack_finite (s : Sign) (m : Nat) (e : Int) (h : 0 < m) :
    (pack .binary64 (.finite s m e h)).toNat = s.toBitVec.toNat * 2 ^ 63 +
      if 2047 ≤ (e + 1075).toNat then 2047 * 2 ^ 52
      else if m.log2 = 52 then (e + 1075).toNat * 2 ^ 52 + m % 2 ^ 52
      else m % 2 ^ 52 := by
  have hbiased : (e + (Format.binary64.exponentBias : Nat) +
      (Format.binary64.mantissaBitsWithoutImplicit : Nat)).toNat = (e + 1075).toNat := by
    rw [Int.add_assoc]
    rfl
  have hbits : Format.binary64.mantissaBits = 53 := rfl
  delta pack
  dsimp only
  rw [hbiased, hbits]
  by_cases htop : 2047 ≤ (e + 1075).toNat
  · have htrailing : (0 : BitVec 52).toNat = 0 := rfl
    have hones : (-1#11 : BitVec 11).toNat = 2047 := rfl
    rw [if_pos (by omega), if_pos htop, packedInfinity, toNat_packComponents, hones, htrailing,
      Nat.add_zero]
  · rw [if_neg (by omega), if_neg htop]
    by_cases hlog : m.log2 = 52
    · rw [if_pos (by omega), if_pos hlog, toNat_packComponents, BitVec.toNat_ofNat,
        BitVec.toNat_ofNat, Nat.mod_eq_of_lt (by omega), Nat.add_assoc]
    · rw [if_neg (by omega), if_neg hlog, toNat_packComponents, BitVec.toNat_ofNat,
        BitVec.toNat_ofNat, Nat.zero_mod, Nat.zero_mul, Nat.add_zero]

/-- How the parts of a number come from the fields of its word. -/
inductive Parts (w : Nat) : UnpackedFloat → Prop
  | infinite (s : Sign) (hs : s.toBitVec.toNat = w / 2 ^ 63) (he : w / 2 ^ 52 % 2 ^ 11 = 2047)
      (hm : w % 2 ^ 52 = 0) : Parts w (.infinity s)
  | nan (he : w / 2 ^ 52 % 2 ^ 11 = 2047) (hm : 0 < w % 2 ^ 52) : Parts w .notANumber
  | zero (s : Sign) (hs : s.toBitVec.toNat = w / 2 ^ 63) (he : w / 2 ^ 52 % 2 ^ 11 = 0)
      (hm : w % 2 ^ 52 = 0) : Parts w (.zero s)
  | subnormal (s : Sign) (hs : s.toBitVec.toNat = w / 2 ^ 63) (he : w / 2 ^ 52 % 2 ^ 11 = 0)
      (hm : 0 < w % 2 ^ 52) : Parts w (.finite s (w % 2 ^ 52) (-1074) hm)
  | normal (s : Sign) (hs : s.toBitVec.toNat = w / 2 ^ 63) (hlow : 0 < w / 2 ^ 52 % 2 ^ 11)
      (hhigh : w / 2 ^ 52 % 2 ^ 11 < 2047) (h : 0 < 2 ^ 52 + w % 2 ^ 52) :
      Parts w (.finite s (2 ^ 52 + w % 2 ^ 52) ((w / 2 ^ 52 % 2 ^ 11 : Nat) - 1075) h)

theorem Parts.of_subnormal {w m : Nat} {e : Int} {h : 0 < m} (s : Sign)
    (hs : s.toBitVec.toNat = w / 2 ^ 63) (hlow : w / 2 ^ 52 % 2 ^ 11 = 0) (hm : m = w % 2 ^ 52)
    (he : e = -1074) : Parts w (.finite s m e h) := by
  subst hm he
  exact .subnormal s hs hlow h

theorem Parts.of_normal {w m : Nat} {e : Int} {h : 0 < m} (s : Sign)
    (hs : s.toBitVec.toNat = w / 2 ^ 63) (hlow : 0 < w / 2 ^ 52 % 2 ^ 11)
    (hhigh : w / 2 ^ 52 % 2 ^ 11 < 2047) (hm : m = 2 ^ 52 + w % 2 ^ 52)
    (he : e = (w / 2 ^ 52 % 2 ^ 11 : Nat) - 1075) : Parts w (.finite s m e h) := by
  subst hm he
  exact .normal s hs hlow hhigh h

theorem toBitVec_ofBitVec (v : BitVec 1) : (Sign.ofBitVec v).toBitVec = v := by
  revert v
  decide

theorem toNat_sign (b : BitVec Format.binary64.numBits) :
    (Sign.ofBitVec (unpackSign b)).toBitVec.toNat = b.toNat / 2 ^ 63 := by
  have hlt : b.toNat < 2 ^ 64 := b.isLt
  rw [toBitVec_ofBitVec]
  delta unpackSign
  simp only [BitVec.extractLsb, BitVec.toNat_cast, BitVec.extractLsb'_toNat,
    Nat.shiftRight_eq_div_pow]
  omega

theorem parts_unpack (b : BitVec Format.binary64.numBits) :
    Parts b.toNat (unpack .binary64 b) := by
  have he : (unpackExponent b).toNat = b.toNat / 2 ^ 52 % 2 ^ 11 := by
    simp [unpackExponent, Nat.shiftRight_eq_div_pow]
  have hm : (unpackMantissa b).toNat = b.toNat % 2 ^ 52 := by
    simp [unpackMantissa]
  have hs := toNat_sign b
  have helt : b.toNat / 2 ^ 52 % 2 ^ 11 < 2 ^ 11 := Nat.mod_lt _ (Nat.two_pow_pos _)
  have htop : unpackExponent b = -1#11 ↔ b.toNat / 2 ^ 52 % 2 ^ 11 = 2047 := by
    rw [BitVec.toNat_eq, he]
    rfl
  have hlow : unpackExponent b = 0#11 ↔ b.toNat / 2 ^ 52 % 2 ^ 11 = 0 := by
    rw [BitVec.toNat_eq, he]
    rfl
  have hzero : unpackMantissa b = 0#52 ↔ b.toNat % 2 ^ 52 = 0 := by
    rw [BitVec.toNat_eq, hm]
    rfl
  have hleading : (1#1 ++ unpackMantissa b).toNat = 2 ^ 52 + b.toNat % 2 ^ 52 := by
    rw [BitVec.toNat_append, ← Nat.shiftLeft_add_eq_or_of_lt (BitVec.isLt _), hm]
    rfl
  unfold unpack
  dsimp only
  by_cases hexponent : unpackExponent b = -1#11
  · have hones := htop.mp hexponent
    rw [if_pos hexponent]
    by_cases hmantissa : unpackMantissa b = 0#52
    · rw [if_pos hmantissa]
      exact .infinite _ hs hones (hzero.mp hmantissa)
    · rw [if_neg hmantissa]
      exact .nan hones (Nat.pos_of_ne_zero (mt hzero.mpr hmantissa))
  · have hones := mt htop.mpr hexponent
    rw [if_neg hexponent]
    by_cases hbits : unpackExponent b = 0#11
    · have hzeros := hlow.mp hbits
      rw [if_pos hbits]
      by_cases hmantissa : unpackMantissa b = 0#52
      · rw [dif_pos hmantissa]
        exact .zero _ hs hzeros (hzero.mp hmantissa)
      · rw [dif_neg hmantissa]
        refine .of_subnormal _ hs hzeros hm ?_
        rw [he, hzeros]
        rfl
    · rw [if_neg hbits]
      refine .of_normal _ hs (Nat.pos_of_ne_zero (mt hlow.mpr hbits)) (by omega) hleading ?_
      rw [he]
      rfl

/-- The parts of a number make up its word. -/
theorem Parts.toNat_pack {w : Nat} {u : UnpackedFloat} (h : Parts w u) (hnan : u ≠ .notANumber) :
    (pack .binary64 u).toNat = w := by
  have hexponent := Nat.div_add_mod (w / 2 ^ 52) (2 ^ 11)
  cases h with
  | infinite s hs he hm =>
    have hword := toNat_packComponents s (-1#11) 0
    change _ = _ + 2047 * _ + 0 at hword
    change (packedInfinity .binary64 s).toNat = w
    rw [packedInfinity, hword]
    omega
  | nan he hm => exact absurd rfl hnan
  | zero s hs he hm =>
    have hword := toNat_packComponents s 0 0
    change _ = _ + 0 * _ + 0 at hword
    change (packedZero .binary64 s).toNat = w
    rw [packedZero, hword]
    omega
  | subnormal s hs he hm =>
    have hlog : (w % 2 ^ 52).log2 < 52 :=
      (Nat.log2_lt (Nat.ne_of_gt hm)).mpr (Nat.mod_lt _ (Nat.two_pow_pos _))
    rw [toNat_pack_finite, if_neg (by decide), if_neg (Nat.ne_of_lt hlog), Nat.mod_mod]
    omega
  | normal s hs hlow hhigh h =>
    have hlog : (2 ^ 52 + w % 2 ^ 52).log2 = 52 := by
      rw [Nat.log2_eq_iff (Nat.ne_of_gt h)]
      omega
    rw [toNat_pack_finite, if_neg (by omega), if_pos hlog]
    omega

namespace Binary64

variable {x y : Binary64}

/-- The number in its parts. -/
def unpacked (x : Binary64) : UnpackedFloat :=
  unpack .binary64 x.bits.toBitVec

theorem parts (x : Binary64) : Parts x.bits.toNat x.unpacked := parts_unpack _

/-- The magnitude by the fields of the word. -/
theorem magnitude_eq (x : Binary64) : x.magnitude =
    x.bits.toNat / 2 ^ 52 % 2 ^ 11 * 2 ^ 52 + x.bits.toNat % 2 ^ 52 := by
  unfold magnitude
  omega

theorem isNaN_iff : x.isNaN = true ↔ x.unpacked = .notANumber := by
  have hparts := x.parts
  have hlt : x.bits.toNat % 2 ^ 52 < 2 ^ 52 := Nat.mod_lt _ (Nat.two_pow_pos _)
  rw [isNaN, decide_eq_true_iff, magnitude_eq, infinityMagnitude]
  generalize x.unpacked = u at hparts ⊢
  cases hparts with
  | nan he hm =>
    rw [he]
    exact iff_of_true (by omega) rfl
  | _ => exact iff_of_false (by omega) UnpackedFloat.noConfusion

theorem unpacked_ne_nan (h : x.isNaN = false) : x.unpacked ≠ .notANumber :=
  mt isNaN_iff.mpr (Bool.eq_false_iff.mp h)

/-- The word of a number is made of its parts. -/
theorem bits_eq (h : x.isNaN = false) : x.bits = .ofBitVec (pack .binary64 x.unpacked) := by
  apply UInt64.toNat_inj.mp
  exact (x.parts.toNat_pack (unpacked_ne_nan h)).symm

/-- A number is known by its parts. -/
theorem unpacked_inj (hx : x.isNaN = false) (hy : y.isNaN = false) (h : x.unpacked = y.unpacked) :
    x = y := by
  have hbits : x.bits = y.bits := by rw [bits_eq hx, bits_eq hy, h]
  cases x
  cases y
  exact congrArg mk hbits

/-! ## Operations on the parts -/

/-- A `Float` has the parts of the number that it is made from. -/
theorem unpack_toFloat (h : x.isNaN = false) : x.toFloat.toModel.unpack = x.unpacked :=
  congrArg (fun w : UInt64 => unpack .binary64 w.toBitVec) (bits_eq h).symm

/-- The double of a result in parts. -/
def ofUnpacked (u : UnpackedFloat) : Binary64 :=
  ofFloat (.ofModel (.pack u))

theorem sub_eq (hx : x.isNaN = false) (hy : y.isNaN = false) :
    x.sub y = ofUnpacked (UnpackedFloat.sub .binary64 x.unpacked y.unpacked) := by
  unfold sub lift₂
  rw [if_neg (by simp [hx]), if_neg (by simp [hy]), ← unpack_toFloat hx, ← unpack_toFloat hy]
  rfl

theorem mul_eq (hx : x.isNaN = false) (hy : y.isNaN = false) :
    x.mul y = ofUnpacked (UnpackedFloat.mul .binary64 x.unpacked y.unpacked) := by
  unfold mul lift₂
  rw [if_neg (by simp [hx]), if_neg (by simp [hy]), ← unpack_toFloat hx, ← unpack_toFloat hy]
  rfl

/-! ## Differences -/

/-- One of the two infinities. -/
def infinity (negative : Bool) : Binary64 :=
  if negative then ⟨0xFFF0000000000000⟩ else ⟨0x7FF0000000000000⟩

theorem isNaN_infinity (s : Bool) : (infinity s).isNaN = false := by
  cases s <;> rfl

theorem eq_infinity_iff : x.magnitude = infinityMagnitude ↔ ∃ s, x = infinity s := by
  constructor
  · intro h
    have hlt := x.bits.toNat_lt
    have hbits : x.bits.toNat = 0x7FF0000000000000 ∨ x.bits.toNat = 0xFFF0000000000000 := by
      unfold magnitude infinityMagnitude at h
      omega
    obtain ⟨w⟩ := x
    rcases hbits with hw | hw
    · exact ⟨false, congrArg mk (UInt64.toNat_inj.mp hw)⟩
    · exact ⟨true, congrArg mk (UInt64.toNat_inj.mp hw)⟩
  · rintro ⟨s, rfl⟩
    cases s <;> rfl

theorem unpacked_infinity (s : Bool) :
    (infinity s).unpacked = .infinity (if s then .negative else .positive) := by
  cases s <;> rfl

theorem eq_infinity_of_unpacked {s : Sign} (h : x.unpacked = .infinity s) :
    x = infinity (s == .negative) := by
  have hx : x.isNaN = false := by
    rw [Bool.eq_false_iff, Ne, isNaN_iff, h]
    exact UnpackedFloat.noConfusion
  refine unpacked_inj hx (isNaN_infinity _) ?_
  rw [h, unpacked_infinity]
  cases s <;> rfl

theorem isNaN_of_isFinite (h : x.isFinite = true) : x.isNaN = false :=
  decide_eq_false (Nat.not_lt_of_lt (of_decide_eq_true h))

theorem unpacked_cases (h : x.isFinite = true) :
    (x.magnitude = 0 ∧ ∃ s, x.unpacked = .zero s) ∨
      ∃ s m e hm, x.unpacked = .finite s m e hm := by
  have hlt : x.magnitude < infinityMagnitude := of_decide_eq_true h
  have hparts := x.parts
  cases hu : x.unpacked with
  | notANumber => exact absurd hu (unpacked_ne_nan (isNaN_of_isFinite h))
  | infinity s =>
    exact absurd (eq_infinity_iff.mpr ⟨_, eq_infinity_of_unpacked hu⟩) (Nat.ne_of_lt hlt)
  | zero s =>
    rw [hu] at hparts
    cases hparts with
    | zero s hs he hm => exact .inl ⟨by rw [magnitude_eq, he, hm, Nat.zero_mul], s, rfl⟩
  | finite s m e hm => exact .inr ⟨s, m, e, hm, rfl⟩

/-- Infinity less itself is no number. -/
theorem sub_self_infinity (s : Bool) : (infinity s).sub (infinity s) = invalid := by
  cases s <;> rfl

theorem abs_ofUnpacked_infinity (s : Sign) : (ofUnpacked (.infinity s)).abs = infinity false := by
  cases s <;> rfl

/-- Infinity is infinitely far from every other number. -/
theorem abs_sub_infinity {s : Bool} (hx : x.isNaN = false) (hne : x ≠ infinity s) :
    (x.sub (infinity s)).abs = infinity false := by
  rw [sub_eq hx (isNaN_infinity s), unpacked_infinity]
  cases hu : x.unpacked with
  | notANumber => exact absurd hu (unpacked_ne_nan hx)
  | infinity t =>
    obtain rfl := eq_infinity_of_unpacked hu
    cases s <;> cases t <;> first | exact absurd rfl hne | exact abs_ofUnpacked_infinity _
  | zero t => exact abs_ofUnpacked_infinity _
  | finite t m e h => exact abs_ofUnpacked_infinity _

/-- A finite number less itself is zero. -/
theorem sub_self (h : x.isFinite = true) : x.sub x = zero := by
  rw [sub_eq (isNaN_of_isFinite h) (isNaN_of_isFinite h)]
  obtain ⟨-, s, hu⟩ | ⟨s, m, e, hm, hu⟩ := unpacked_cases h
  · rw [hu]
    cases s <;> rfl
  · have hsub : UnpackedFloat.sub .binary64 (.finite s m e hm) (.finite s m e hm) =
        .zero .positive := by
      delta UnpackedFloat.sub
      dsimp only
      rw [Int.sub_self]
      rfl
    rw [hu, hsub]
    rfl

/-! ## Products -/

/-- The number is one, or an infinity, of this sign. -/
def HasSign (s : Sign) : UnpackedFloat → Prop
  | .infinity t | .zero t | .finite t _ _ _ => t = s
  | .notANumber => False

theorem hasSign_unpacked (hx : x.isNaN = false) (h : x.negative = false) :
    HasSign .positive x.unpacked := by
  have hlt : x.bits.toNat < 2 ^ 63 := Nat.lt_of_not_le (of_decide_eq_false h)
  have hsign (s : Sign) (hs : s.toBitVec.toNat = x.bits.toNat / 2 ^ 63) : s = .positive := by
    rw [Nat.div_eq_of_lt hlt] at hs
    cases s with
    | positive => rfl
    | negative => cases hs
  have hparts := x.parts
  have hnan := unpacked_ne_nan hx
  generalize x.unpacked = u at hparts hnan ⊢
  cases hparts with
  | nan => exact absurd rfl hnan
  | infinite s hs | zero s hs | subnormal s hs | normal s hs => exact hsign s hs

theorem hasSign_dite {s : Sign} {p : Prop} [Decidable p] {u : p → UnpackedFloat}
    {v : ¬ p → UnpackedFloat} (hu : ∀ h, HasSign s (u h)) (hv : ∀ h, HasSign s (v h)) :
    HasSign s (dite p u v) := by
  by_cases h : p
  · rw [dif_pos h]
    exact hu h
  · rw [dif_neg h]
    exact hv h

theorem hasSign_round (s : Sign) (m : Nat) (e : Int) (a : Accuracy) :
    HasSign s (roundWithAccuracy .binary64 s m e a) := by
  unfold roundWithAccuracy
  exact hasSign_dite (fun _ => rfl) fun _ => rfl

theorem hasSign_mul {m : Nat} {e : Int} {hm : 0 < m} {u : UnpackedFloat} (h : HasSign .positive u) :
    HasSign .positive (UnpackedFloat.mul .binary64 (.finite .positive m e hm) u) := by
  cases u with
  | notANumber => exact h
  | infinity t =>
    obtain rfl : t = .positive := h
    rfl
  | zero t =>
    obtain rfl : t = .positive := h
    rfl
  | finite t m' e' hm' =>
    obtain rfl : t = .positive := h
    exact hasSign_round _ _ _ _

theorem toNat_pack_le {u : UnpackedFloat} (h : HasSign .positive u) :
    (pack .binary64 u).toNat ≤ infinityMagnitude := by
  cases u with
  | notANumber => exact absurd h id
  | infinity t =>
    obtain rfl : t = .positive := h
    decide
  | zero t =>
    obtain rfl : t = .positive := h
    decide
  | finite t m e hm =>
    obtain rfl : t = .positive := h
    have hsign : Sign.positive.toBitVec.toNat = 0 := rfl
    rw [toNat_pack_finite, hsign, infinityMagnitude]
    split
    · omega
    · split <;> omega

theorem ofUnpacked_of_hasSign {u : UnpackedFloat} (h : HasSign .positive u) :
    (ofUnpacked u).isNaN = false ∧ (ofUnpacked u).negative = false := by
  have hle : (pack .binary64 u).toNat ≤ 0x7FF0000000000000 := toNat_pack_le h
  have hx : (⟨.ofBitVec (pack .binary64 u)⟩ : Binary64).isNaN = false := by
    refine decide_eq_false ?_
    change ¬ infinityMagnitude < (pack .binary64 u).toNat % _
    rw [infinityMagnitude]
    omega
  have hnan : (Float.ofModel (.pack u)).isNaN = false := by
    have hne := unpacked_ne_nan hx
    change (unpacked ⟨.ofBitVec (pack .binary64 u)⟩).isNaN = false
    cases hu : unpacked ⟨.ofBitVec (pack .binary64 u)⟩ with
    | notANumber => exact absurd hu hne
    | _ => rfl
  rw [ofUnpacked, ofFloat, hnan, if_neg Bool.false_ne_true]
  refine ⟨hx, decide_eq_false ?_⟩
  change ¬ _ ≤ (pack .binary64 u).toNat
  omega

/-- The product of a positive number and one that is not negative is not negative, and it is
a number. -/
theorem mul_nonnegative (hx : x.isFinite = true) (hpos : 0 < x.magnitude)
    (hsign : x.negative = false) (hy : y.isNaN = false) (hsign' : y.negative = false) :
    (x.mul y).isNaN = false ∧ (x.mul y).negative = false := by
  have hhas := hasSign_unpacked (isNaN_of_isFinite hx) hsign
  rw [mul_eq (isNaN_of_isFinite hx) hy]
  obtain ⟨hzero, -⟩ | ⟨s, m, e, hm, hu⟩ := unpacked_cases hx
  · exact absurd hzero (Nat.ne_of_gt hpos)
  · rw [hu] at hhas ⊢
    obtain rfl : s = .positive := hhas
    exact ofUnpacked_of_hasSign (hasSign_mul (hasSign_unpacked hy hsign'))

/-! ## Magnitudes and order -/

theorem magnitude_lt (x : Binary64) : x.magnitude < 0x8000000000000000 :=
  Nat.mod_lt _ (by decide)

theorem toNat_bits_abs (x : Binary64) : x.abs.bits.toNat = x.magnitude := by
  have hlt := x.magnitude_lt
  change x.magnitude % 2 ^ 64 = x.magnitude
  exact Nat.mod_eq_of_lt (by omega)

theorem magnitude_abs (x : Binary64) : x.abs.magnitude = x.magnitude := by
  rw [magnitude, toNat_bits_abs, Nat.mod_eq_of_lt x.magnitude_lt]

theorem isNaN_abs (x : Binary64) : x.abs.isNaN = x.isNaN := by
  rw [isNaN, magnitude_abs, isNaN]

theorem negative_abs (x : Binary64) : x.abs.negative = false := by
  rw [negative, toNat_bits_abs]
  exact decide_eq_false (Nat.not_le_of_lt x.magnitude_lt)

theorem isNaN_quiet (h : x.isNaN = true) : x.quiet.isNaN = true := by
  have hlt : infinityMagnitude < x.magnitude := of_decide_eq_true h
  have hmagnitude : x.quiet.magnitude = x.magnitude ||| 0x0008000000000000 := by
    have hpow : (0x8000000000000000 : Nat) = 2 ^ 63 := rfl
    rw [magnitude, magnitude, quiet, UInt64.toNat_or, hpow, Nat.or_mod_two_pow]
    rfl
  refine decide_eq_true ?_
  rw [hmagnitude]
  exact Nat.lt_of_lt_of_le hlt Nat.left_le_or

theorem isNaN_sub_left (h : x.isNaN = true) (y : Binary64) : (x.sub y).isNaN = true := by
  rw [sub, lift₂, if_pos h]
  exact isNaN_quiet h

theorem not_le_of_isNaN (h : x.isNaN = true) (y : Binary64) : x.le y = false := by
  simp [le, h]

/-- Zero is at most every number that is not negative. -/
theorem zero_le (hy : y.isNaN = false) (hsign : y.negative = false) : zero.le y = true := by
  have hkey : y.key = y.magnitude := by rw [key, hsign, if_neg Bool.false_ne_true]
  have hzero : zero.key = 0 := rfl
  have hnan : zero.isNaN = false := rfl
  simp [le, hnan, hy, hzero, hkey]

end Binary64

end Lockstep
