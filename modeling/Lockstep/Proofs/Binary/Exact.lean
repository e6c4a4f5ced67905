import Lockstep.Buffer.Codec
import Mathlib.Tactic.Ring

/-!
# Numbers that formats share

A word is the nearest one to the number that it stands for, and which word is nearest to a
number depends on the number alone, not on the significand and the exponent that it is given
by. The numbers of a narrow format are numbers of the double format, so a word that is made
a double and rounded to its own format again is the same word. Infinities are kept too, and
a NaN becomes a NaN.
-/

namespace Lockstep

/-! ## Rounded quotients -/

/-- A quotient without a remainder is not rounded. -/
theorem roundShift_mul_pow_of_le {s k : Nat} (m : Nat) (h : s ≤ k) :
    roundShift (m * 2 ^ k) s = m * 2 ^ (k - s) := by
  obtain ⟨d, rfl⟩ := Nat.exists_eq_add_of_le h
  have hm : m * 2 ^ (s + d) = m * 2 ^ d * 2 ^ s := by ring
  have hpos : 0 < 2 ^ s := Nat.two_pow_pos s
  simp only [roundShift, Nat.pow_eq, hm, Nat.mul_mod_left, Nat.mul_div_left _ hpos,
    Nat.add_sub_cancel_left, Nat.mul_zero, hpos, if_true]

theorem roundShift_mul_pow (m s k : Nat) : roundShift (m * 2 ^ k) (s + k) = roundShift m s := by
  have hpos : 0 < 2 ^ k := Nat.two_pow_pos k
  simp only [roundShift, Nat.pow_eq, Nat.pow_add, Nat.mul_div_mul_right _ _ hpos,
    Nat.mul_mod_mul_right, ← Nat.mul_assoc, Nat.mul_lt_mul_right hpos]

theorem log2_mul_pow {m : Nat} (hm : m ≠ 0) (k : Nat) : (m * 2 ^ k).log2 = m.log2 + k := by
  rw [Nat.log2_eq_iff (Nat.mul_ne_zero hm (Nat.two_pow_pos k).ne')]
  have hlow : 2 ^ (m.log2 + k) = 2 ^ m.log2 * 2 ^ k := Nat.pow_add ..
  have hhigh : 2 ^ (m.log2 + k + 1) = 2 ^ (m.log2 + 1) * 2 ^ k := by ring
  rw [hlow, hhigh]
  exact ⟨Nat.mul_le_mul_right _ (Nat.log2_self_le hm),
    Nat.mul_lt_mul_of_pos_right Nat.lt_log2_self (Nat.two_pow_pos k)⟩

namespace BinaryFormat

variable {f : BinaryFormat} {w n m k u : Nat} {s : Bool} {e : Int}

/-- The nearest word depends on the number alone. -/
theorem magnitude_mul_pow (f : BinaryFormat) (m k : Nat) (e : Int) :
    f.magnitude (m * 2 ^ k) e = f.magnitude m (e + k) := by
  by_cases hm : m = 0
  · simp [magnitude, hm]
  · have hmul : m * 2 ^ k ≠ 0 := Nat.mul_ne_zero hm (Nat.two_pow_pos k).ne'
    have hunit : e + (m * 2 ^ k).log2 - f.fractionBits = e + k + m.log2 - f.fractionBits := by
      rw [log2_mul_pow hm]
      push_cast
      omega
    unfold magnitude
    rw [if_neg hm, if_neg hmul, hunit]
    generalize max (e + k + m.log2 - f.fractionBits) f.minExponent = unit
    dsimp only
    congr 2
    simp only [Nat.pow_eq]
    by_cases hunit : unit ≤ e
    · rw [if_pos hunit, if_pos (by omega), Nat.mul_assoc, ← Nat.pow_add]
      congr 2
      omega
    · rw [if_neg hunit]
      by_cases hunit' : unit ≤ e + k
      · rw [if_pos hunit', roundShift_mul_pow_of_le m (by omega)]
        congr 2
        omega
      · have hshift : (unit - e).toNat = (unit - (e + k)).toNat + k := by omega
        rw [if_neg hunit', hshift, roundShift_mul_pow]

theorem magnitude_le (f : BinaryFormat) (m : Nat) (e : Int) : f.magnitude m e ≤ f.infinity := by
  unfold magnitude
  split
  · exact Nat.zero_le _
  · exact Nat.min_le_right _ _

/-! ## Words and their fields -/

/-- The word with this sign and magnitude. -/
def pack (f : BinaryFormat) (s : Bool) (n : Nat) : Nat := (if s then f.signBit else 0) + n

theorem signBit_eq (f : BinaryFormat) :
    f.signBit = 2 ^ f.fractionBits * 2 ^ f.exponentBits := by
  rw [← Nat.pow_add, Nat.add_comm]
  rfl

theorem signBit_pos (f : BinaryFormat) : 0 < f.signBit := Nat.two_pow_pos _

theorem pack_mod (hn : n < f.signBit) (s : Bool) : f.pack s n % f.signBit = n := by
  cases s
  · simp [pack, Nat.mod_eq_of_lt hn]
  · simp [pack, Nat.mod_eq_of_lt hn]

theorem pack_div (hn : n < f.signBit) (s : Bool) : (f.pack s n / f.signBit % 2 == 1) = s := by
  cases s
  · simp [pack, Nat.div_eq_of_lt hn]
  · simp [pack, Nat.add_div_left _ f.signBit_pos, Nat.div_eq_of_lt hn]

theorem pack_lt (hn : n < f.signBit) (s : Bool) : f.pack s n < 2 * f.signBit := by
  unfold pack
  split <;> omega

/-- A word is packed from its own sign and magnitude. -/
theorem exists_pack (hw : w < 2 * f.signBit) : ∃ s n, n < f.signBit ∧ w = f.pack s n := by
  refine ⟨decide (f.signBit ≤ w), w % f.signBit, Nat.mod_lt _ f.signBit_pos, ?_⟩
  by_cases hle : f.signBit ≤ w
  · have hmod : w % f.signBit = w - f.signBit := by
      rw [Nat.mod_eq_sub_mod hle, Nat.mod_eq_of_lt (by omega)]
    simp [pack, hle, hmod]
  · simp [pack, hle, Nat.mod_eq_of_lt (Nat.lt_of_not_le hle)]

/-- The fields of a word are those of its magnitude. -/
theorem decode_pack (hn : n < f.signBit) (s : Bool) : f.decode (f.pack s n) =
    if n / 2 ^ f.fractionBits = 2 ^ f.exponentBits - 1 then
      if n % 2 ^ f.fractionBits = 0 then .infinite s
      else .nan s (n % 2 ^ f.fractionBits * 2 ^ (52 - f.fractionBits))
    else if n / 2 ^ f.fractionBits = 0 then .finite s (n % 2 ^ f.fractionBits) f.minExponent
    else .finite s (2 ^ f.fractionBits + n % 2 ^ f.fractionBits)
      (f.minExponent + (n / 2 ^ f.fractionBits : Nat) - 1) := by
  have hfraction : f.pack s n % 2 ^ f.fractionBits = n % 2 ^ f.fractionBits := by
    rw [← Nat.mod_mul_right_mod _ _ (2 ^ f.exponentBits), ← signBit_eq, pack_mod hn]
  have hexponent : f.pack s n / 2 ^ f.fractionBits % 2 ^ f.exponentBits =
      n / 2 ^ f.fractionBits := by
    rw [← Nat.mod_mul_right_div_self, ← signBit_eq, pack_mod hn]
  simp only [decode, Nat.pow_eq, hfraction, hexponent, pack_div hn]

theorem infinity_lt_signBit (f : BinaryFormat) : f.infinity < f.signBit := by
  have hpos : 0 < 2 ^ f.exponentBits := Nat.two_pow_pos _
  rw [signBit_eq, Nat.mul_comm]
  exact Nat.mul_lt_mul_of_pos_right (Nat.sub_lt hpos Nat.one_pos) (Nat.two_pow_pos _)

/-- The fields of infinity. -/
theorem infinity_div (f : BinaryFormat) :
    f.infinity / 2 ^ f.fractionBits = 2 ^ f.exponentBits - 1 :=
  Nat.mul_div_left _ (Nat.two_pow_pos _)

theorem infinity_mod (f : BinaryFormat) : f.infinity % 2 ^ f.fractionBits = 0 :=
  Nat.mul_mod_left _ _

theorem decode_infinity (f : BinaryFormat) (s : Bool) :
    f.decode (f.pack s f.infinity) = .infinite s := by
  rw [decode_pack f.infinity_lt_signBit, infinity_div, infinity_mod, if_pos rfl, if_pos rfl]

/-- The words above infinity are those of NaNs. -/
theorem exists_decode_nan (hn : n < f.signBit) (hlt : f.infinity < n) (s : Bool) :
    ∃ payload, f.decode (f.pack s n) = .nan s payload := by
  have hpos : 0 < 2 ^ f.fractionBits := Nat.two_pow_pos _
  have hexponent : n / 2 ^ f.fractionBits = 2 ^ f.exponentBits - 1 := by
    have hle : f.infinity / 2 ^ f.fractionBits ≤ n / 2 ^ f.fractionBits :=
      Nat.div_le_div_right (Nat.le_of_lt hlt)
    have hltop : n / 2 ^ f.fractionBits < 2 ^ f.exponentBits := by
      rwa [Nat.div_lt_iff_lt_mul hpos, Nat.mul_comm, ← signBit_eq]
    rw [infinity_div] at hle
    omega
  have hfraction : n % 2 ^ f.fractionBits ≠ 0 := by
    intro hzero
    have hn := Nat.div_add_mod' n (2 ^ f.fractionBits)
    rw [hzero, hexponent, Nat.add_zero] at hn
    exact hlt.ne hn
  rw [decode_pack hn, if_pos hexponent, if_neg hfraction]
  exact ⟨_, rfl⟩

/-! ## Finite numbers -/

/-- A finite number of the format as its words have it: `m` units in the last place, which is
`2 ^ u` times that of the subnormal numbers. -/
structure Significand (f : BinaryFormat) (m u : Nat) : Prop where
  lt : m < 2 * 2 ^ f.fractionBits
  normal : u = 0 ∨ 2 ^ f.fractionBits ≤ m
  finite : u * 2 ^ f.fractionBits + m < f.infinity

theorem exists_significand (hn : n < f.infinity) :
    ∃ m u, f.Significand m u ∧ n = u * 2 ^ f.fractionBits + m := by
  have hpos : 0 < 2 ^ f.fractionBits := Nat.two_pow_pos _
  have hdiv := Nat.div_add_mod' n (2 ^ f.fractionBits)
  have hmod : n % 2 ^ f.fractionBits < 2 ^ f.fractionBits := Nat.mod_lt _ hpos
  cases hx : n / 2 ^ f.fractionBits with
  | zero =>
    rw [hx, Nat.zero_mul, Nat.zero_add] at hdiv
    refine ⟨n, 0, ⟨by omega, .inl rfl, by omega⟩, by omega⟩
  | succ u =>
    rw [hx, Nat.succ_mul] at hdiv
    refine ⟨2 ^ f.fractionBits + n % 2 ^ f.fractionBits, u,
      ⟨by omega, .inr (Nat.le_add_right _ _), by omega⟩, by omega⟩

namespace Significand

variable (h : f.Significand m u)

include h

theorem lt_signBit : u * 2 ^ f.fractionBits + m < f.signBit :=
  h.finite.trans f.infinity_lt_signBit

theorem decode_pack (s : Bool) : f.decode (f.pack s (u * 2 ^ f.fractionBits + m)) =
    .finite s m (f.minExponent + u) := by
  have hpos : 0 < 2 ^ f.fractionBits := Nat.two_pow_pos _
  have hexponent : (u * 2 ^ f.fractionBits + m) / 2 ^ f.fractionBits < 2 ^ f.exponentBits - 1 :=
    (Nat.div_lt_iff_lt_mul hpos).mpr h.finite
  rw [BinaryFormat.decode_pack h.lt_signBit, if_neg (Nat.ne_of_lt hexponent)]
  have hlt := h.lt
  rcases Nat.lt_or_ge m (2 ^ f.fractionBits) with hm | hm
  · obtain rfl : u = 0 := h.normal.resolve_right (Nat.not_le_of_lt hm)
    simp [Nat.div_eq_of_lt hm, Nat.mod_eq_of_lt hm]
  · obtain ⟨r, rfl⟩ := Nat.exists_eq_add_of_le hm
    have hr : r < 2 ^ f.fractionBits := by omega
    have hword : u * 2 ^ f.fractionBits + (2 ^ f.fractionBits + r) =
        r + (u + 1) * 2 ^ f.fractionBits := by ring
    have hfields : (r + (u + 1) * 2 ^ f.fractionBits) / 2 ^ f.fractionBits = u + 1 ∧
        (r + (u + 1) * 2 ^ f.fractionBits) % 2 ^ f.fractionBits = r := by
      rw [Nat.add_mul_div_right _ _ hpos, Nat.add_mul_mod_self_right, Nat.div_eq_of_lt hr,
        Nat.mod_eq_of_lt hr]
      exact ⟨Nat.zero_add _, rfl⟩
    rw [hword, hfields.1, hfields.2, if_neg (Nat.succ_ne_zero u)]
    congr 1
    push_cast
    omega

/-- The word of a number is the nearest one to it. -/
theorem magnitude_eq :
    f.magnitude m (f.minExponent + u) = u * 2 ^ f.fractionBits + m := by
  have hlt := h.lt
  have hnormal := h.normal
  by_cases hm : m = 0
  · have hpos : 0 < 2 ^ f.fractionBits := Nat.two_pow_pos _
    obtain rfl : u = 0 := by omega
    simp [magnitude, hm]
  · have hlog : m.log2 < f.fractionBits + 1 := by
      rw [Nat.log2_lt hm, Nat.pow_succ']
      exact hlt
    have hunit : max (f.minExponent + u + m.log2 - f.fractionBits) f.minExponent =
        f.minExponent + u := by
      rcases hnormal with rfl | hle
      · omega
      · have := (Nat.le_log2 hm).mpr hle
        omega
    simp only [magnitude, hm, if_false, hunit, le_refl, if_true, Nat.pow_eq]
    simp only [Int.sub_self, Int.toNat_zero, Nat.pow_zero, Nat.mul_one, add_sub_cancel_left,
      Int.toNat_natCast]
    exact Nat.min_eq_left (Nat.le_of_lt h.finite)

end Significand

/-! ## Narrow formats -/

/-- The numbers of the format are in the normal range of the double format, with no more
digits. -/
structure Narrow (f : BinaryFormat) : Prop where
  fraction : f.fractionBits ≤ double.fractionBits
  low : double.minExponent + double.fractionBits ≤ f.minExponent
  high : f.minExponent + (2 ^ f.exponentBits : Nat) ≤ 972

theorem narrow_half : half.Narrow := ⟨by decide, by decide, by decide⟩

theorem narrow_single : single.Narrow := ⟨by decide, by decide, by decide⟩

/-- A number that is not zero has the leading bit of its significand in place. -/
theorem Significand.shifted (hf : f.Narrow) (h : f.Significand m u) (hm : m ≠ 0) :
    ∃ k v : Nat, double.Significand (m * 2 ^ k) v ∧
      double.minExponent + v + k = f.minExponent + u := by
  have hmin : double.minExponent = -1074 := by decide
  have hbits : double.fractionBits = 52 := rfl
  obtain ⟨hfraction, hlow, hhigh⟩ := hf
  rw [hbits] at hfraction
  rw [hmin, hbits] at hlow
  have hlog : m.log2 < f.fractionBits + 1 := by
    rw [Nat.log2_lt hm, Nat.pow_succ']
    exact h.lt
  have hu : u < 2 ^ f.exponentBits - 1 := by
    have hlt : u * 2 ^ f.fractionBits < (2 ^ f.exponentBits - 1) * 2 ^ f.fractionBits :=
      Nat.lt_of_le_of_lt (Nat.le_add_right _ m) h.finite
    exact Nat.lt_of_mul_lt_mul_right hlt
  obtain ⟨k, hk⟩ : ∃ k, m.log2 + k = 52 := ⟨52 - m.log2, by omega⟩
  obtain ⟨v, hv⟩ : ∃ v : Nat, (v : Int) = f.minExponent + u - k + 1074 :=
    ⟨(f.minExponent + u - k + 1074).toNat, by omega⟩
  have hlower : 2 ^ 52 ≤ m * 2 ^ k := by
    rw [← hk, Nat.pow_add]
    exact Nat.mul_le_mul_right _ (Nat.log2_self_le hm)
  have hupper : m * 2 ^ k < 2 * 2 ^ 52 := by
    have htop : 2 * 2 ^ 52 = 2 ^ (m.log2 + 1) * 2 ^ k := by
      rw [← hk]
      ring
    rw [htop]
    exact Nat.mul_lt_mul_of_pos_right Nat.lt_log2_self (Nat.two_pow_pos k)
  refine ⟨k, v, ⟨hupper, .inr hlower, ?_⟩, by omega⟩
  have hinfinity : double.infinity = 2047 * 2 ^ 52 := by decide
  rw [hinfinity, hbits]
  omega

/-- The numbers of a narrow format are numbers of the double format. -/
theorem Significand.exists_double (hf : f.Narrow) (h : f.Significand m u) :
    ∃ m' v : Nat, double.Significand m' v ∧ ∀ g : BinaryFormat,
      g.magnitude m' (double.minExponent + v) = g.magnitude m (f.minExponent + u) := by
  by_cases hm : m = 0
  · exact ⟨0, 0, ⟨by decide, .inl rfl, by decide⟩, fun g => by simp [magnitude, hm]⟩
  · obtain ⟨k, v, hv, he⟩ := h.shifted hf hm
    exact ⟨m * 2 ^ k, v, hv, fun g => by rw [magnitude_mul_pow, he]⟩

/-- A word of a narrow format comes back from a double. -/
theorem encode_decode_double (hf : f.Narrow) (hw : w < 2 * f.signBit)
    (hn : w % f.signBit ≤ f.infinity) :
    f.encode (double.decode (double.encode (f.decode w))) = w := by
  obtain ⟨s, n, hsign, rfl⟩ := exists_pack hw
  rw [pack_mod hsign] at hn
  rcases Nat.lt_or_eq_of_le hn with hlt | rfl
  · obtain ⟨m, u, h, rfl⟩ := exists_significand hlt
    obtain ⟨m', v, hdouble, hmagnitude⟩ := h.exists_double hf
    have hencode : double.encode (.finite s m (f.minExponent + u)) =
        double.pack s (v * 2 ^ double.fractionBits + m') := by
      rw [← hdouble.magnitude_eq, hmagnitude]
      rfl
    have hback : f.encode (.finite s m' (double.minExponent + v)) =
        f.pack s (u * 2 ^ f.fractionBits + m) := by
      rw [← h.magnitude_eq, ← hmagnitude]
      rfl
    rw [h.decode_pack, hencode, hdouble.decode_pack, hback]
  · rw [decode_infinity]
    change f.encode (double.decode (double.pack s double.infinity)) = _
    rw [decode_infinity]
    rfl

end BinaryFormat

/-! ## Doubles -/

namespace Binary64

open BinaryFormat

variable {f : BinaryFormat} {w : Nat}

/-- The word of a double is packed from a magnitude, which is greater than that of infinity
for NaNs. -/
theorem exists_encode_double (d : Datum) : ∃ n, n < double.signBit ∧
    double.encode d = double.pack d.negative n ∧
    ∀ s payload, d = .nan s payload → double.infinity < n := by
  cases d with
  | finite s m e =>
    have hlt := Nat.lt_of_le_of_lt (double.magnitude_le m e) double.infinity_lt_signBit
    exact ⟨double.magnitude m e, hlt, rfl, fun _ _ h => by cases h⟩
  | infinite s => exact ⟨double.infinity, double.infinity_lt_signBit, rfl, fun _ _ h => by cases h⟩
  | nan s payload =>
    have hinfinity : double.infinity + 2 ^ 52 = double.signBit := by decide
    have hfraction : (payload % 2 ^ 52 / 2 ^ 0 ||| 2 ^ 51) < 2 ^ 52 := by
      rw [Nat.pow_zero, Nat.div_one]
      exact Nat.or_lt_two_pow (Nat.mod_lt _ (Nat.two_pow_pos _)) (by decide)
    have hquiet : 2 ^ 51 ≤ (payload % 2 ^ 52 / 2 ^ 0 ||| 2 ^ 51) := Nat.right_le_or
    refine ⟨double.infinity + (payload % 2 ^ 52 / 2 ^ 0 ||| 2 ^ 51), by omega, rfl, ?_⟩
    intro _ _ _
    omega

theorem toNat_ofDatum (d : Datum) : (ofDatum d).bits.toNat = double.encode d := by
  obtain ⟨n, hn, hencode, -⟩ := exists_encode_double d
  have hlt : double.encode d < 2 ^ 64 := by
    rw [hencode]
    exact pack_lt hn _
  exact UInt64.toNat_ofNat_of_lt' hlt

theorem datum_ofDatum (d : Datum) : (ofDatum d).datum = double.decode (double.encode d) := by
  rw [datum, toNat_ofDatum]

theorem isNaN_ofDatum (s : Bool) (payload : Nat) : (ofDatum (.nan s payload)).isNaN = true := by
  obtain ⟨n, hn, hencode, hnan⟩ := exists_encode_double (.nan s payload)
  have hmagnitude : (ofDatum (.nan s payload)).magnitude = n := by
    rw [magnitude, toNat_ofDatum, hencode]
    exact pack_mod hn _
  rw [isNaN, hmagnitude]
  exact decide_eq_true (hnan s payload rfl)

/-- A word of a narrow format that stands for no NaN comes back from a double. -/
theorem toWord_ofWord (hf : f.Narrow) (hw : w < 2 * f.signBit)
    (hnan : (ofWord f w).isNaN = false) : (ofWord f w).toWord f = w := by
  rw [toWord, ofWord, datum_ofDatum]
  apply encode_decode_double hf hw
  obtain ⟨s, n, hn, rfl⟩ := exists_pack hw
  rw [pack_mod hn]
  by_contra hlt
  obtain ⟨payload, hpayload⟩ := exists_decode_nan hn (Nat.lt_of_not_le hlt) s
  rw [ofWord, hpayload, isNaN_ofDatum] at hnan
  cases hnan

end Binary64

/-- A float that is no NaN is written as the word that it was read from. -/
theorem FloatType.toWord_ofWord {t : FloatType} {w : Nat} (hw : w < 256 ^ t.size)
    (hnan : (t.ofWord w).isNaN = false) : t.toWord (t.ofWord w) = w := by
  cases t with
  | float16 => exact Binary64.toWord_ofWord BinaryFormat.narrow_half hw hnan
  | float32 => exact Binary64.toWord_ofWord BinaryFormat.narrow_single hw hnan
  | float64 => exact UInt64.toNat_ofNat_of_lt' hw

end Lockstep
