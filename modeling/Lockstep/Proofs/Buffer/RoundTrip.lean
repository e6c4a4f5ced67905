import Lockstep.Proofs.Binary.Exact
import Lockstep.Proofs.Memory.Element

/-!
# Elements of buffers and back

What is written to an element of integers or truth values is read back as it was converted,
and its bytes are the digits of the number to the base 256, lowest first. What is read from
an element of any type and written to it again leaves the buffer as it is, if the bytes are
not another way to write it. A buffer is made of values when each has a place in the format.
-/

namespace Lockstep

/-! ## Bytes and words -/

theorem wordBytes_bytesWord (bytes : List UInt8) :
    wordBytes (bytesWord bytes) bytes.length = bytes := by
  induction bytes with
  | nil => rfl
  | cons byte bytes ih =>
    have hlt : byte.toNat < 256 := byte.toNat_lt
    have hlow : (byte.toNat + 256 * bytesWord bytes) % 256 = byte.toNat := by omega
    have hrest : (byte.toNat + 256 * bytesWord bytes) / 256 = bytesWord bytes := by omega
    rw [bytesWord, List.length_cons, wordBytes, hlow, hrest, ih, UInt8.ofNat_toNat]

theorem getElem?_wordBytes {k size : Nat} (hk : k < size) (w : Nat) :
    (wordBytes w size)[k]? = some (UInt8.ofNat (w / 256 ^ k % 256)) := by
  induction size generalizing w k with
  | zero => cases hk
  | succ size ih =>
    rw [wordBytes]
    cases k with
    | zero => simp
    | succ k =>
      rw [List.getElem?_cons_succ, ih (Nat.lt_of_succ_lt_succ hk), Nat.div_div_eq_div_mul,
        Nat.pow_succ']

/-- The digits of a number are those of its remainder. -/
theorem emod_pow_ediv_emod {k size : Nat} (hk : k < size) (n : Int) :
    n % 256 ^ size / 256 ^ k % 256 = n / 256 ^ k % 256 := by
  obtain ⟨d, rfl⟩ := Nat.exists_eq_add_of_lt hk
  have hpow : (256 : Int) ^ (k + d + 1) = 256 ^ k * (256 * 256 ^ d) := by ring
  have hpos : (256 : Int) ^ k ≠ 0 := pow_ne_zero _ (by decide)
  have hdiv := Int.emod_add_mul_ediv n (256 ^ (k + d + 1))
  generalize n % 256 ^ (k + d + 1) = r at hdiv ⊢
  rw [← hdiv, hpow, Int.mul_assoc, Int.add_mul_ediv_left _ _ hpos, Int.mul_assoc,
    Int.add_mul_emod_self_left]

/-! ## Parts of bytes -/

section

variable {size count i : Nat}

theorem length_chunks (size count : Nat) (bytes : List UInt8) :
    (chunks size count bytes).length = count := by
  induction count generalizing bytes with
  | zero => rfl
  | succ count ih => rw [chunks, List.length_cons, ih]

theorem getElem?_chunks {bytes : List UInt8} (hi : i < count) :
    (chunks size count bytes)[i]? = some ((bytes.drop (i * size)).take size) := by
  induction count generalizing bytes i with
  | zero => cases hi
  | succ count ih =>
    rw [chunks]
    cases i with
    | zero => simp
    | succ i =>
      rw [List.getElem?_cons_succ, ih (Nat.lt_of_succ_lt_succ hi), List.drop_drop, Nat.succ_mul,
        Nat.add_comm]

end

/-! ## Words and integers -/

theorem IntType.toWord_ofWord {t : IntType} {w : Nat} (hw : w < 256 ^ t.size) :
    t.toWord (t.ofWord w) = w := by
  have hmod : t.ofWord w % (2 ^ t.bits : Nat) = (w : Int) % (2 ^ t.bits : Nat) := by
    unfold ofWord
    cases t.isSigned with
    | true => exact Int.bmod_emod
    | false => rfl
  have hlt : (w : Int) < (2 ^ t.bits : Nat) := by
    rw [t.two_pow_bits]
    exact_mod_cast hw
  change (t.ofWord w % (2 ^ t.bits : Nat)).toNat = w
  rw [hmod, Int.emod_eq_of_lt (Int.natCast_nonneg w) hlt, Int.toNat_natCast]

/-! ## Elements -/

theorem ScalarType.size_pos (t : ScalarType) : 0 < t.size := by
  cases t with
  | bool => decide
  | int t => cases t <;> decide
  | float t => cases t <;> decide

theorem ScalarType.not_isInt_and_isFloat (t : ScalarType) :
    ¬ (t.isInt = true ∧ t.isFloat = true) := by
  cases t with
  | int t => cases t <;> decide
  | _ => exact fun h => Bool.noConfusion h.1

section

variable {t : ScalarType} {bytes : List UInt8}

theorem type_decodeElement (t : ScalarType) (bytes : List UInt8) :
    (decodeElement t bytes).type = t := by
  cases t <;> rfl

/-- A truth value is written as 0 or 1, and a float that is no NaN in one way only. -/
theorem encodeElement_decodeElement (hlength : bytes.length = t.size)
    (hbool : t = .bool → ∀ byte ∈ bytes, byte = 0 ∨ byte = 1)
    (hnan : ∀ s x, decodeElement t bytes = .float s x → x.isNaN = false) :
    encodeElement t (decodeElement t bytes) = .ok bytes := by
  have htype := type_decodeElement t bytes
  have hlt := bytesWord_lt bytes
  rw [hlength] at hlt
  have hguard : ¬ (t.isInt = true ∧ (decodeElement t bytes).type.isFloat = true) := by
    rw [htype]
    exact t.not_isInt_and_isFloat
  refine encodeElement_eq_ok.mpr ⟨hguard, _, if_pos htype, ?_⟩
  cases t with
  | bool =>
    obtain ⟨byte, rfl⟩ := List.length_eq_one_iff.mp hlength
    rcases hbool rfl byte (List.mem_singleton_self byte) with rfl | rfl <;> rfl
  | int s =>
    change wordBytes (s.toWord (s.ofWord (bytesWord bytes))) s.size = bytes
    rw [IntType.toWord_ofWord hlt, ← show bytes.length = s.size from hlength, wordBytes_bytesWord]
  | float s =>
    change wordBytes (s.toWord (s.ofWord (bytesWord bytes))) s.size = bytes
    rw [FloatType.toWord_ofWord hlt (hnan s _ rfl), ← show bytes.length = s.size from hlength,
      wordBytes_bytesWord]

end

/-- The word of a truth value or an integer is the number in two's complement. -/
theorem Value.exists_word {v : Value} (hf : v.type.isFloat = false) :
    ∃ n, v.toInt? = some n ∧ (v.word : Int) = n % 256 ^ v.type.size := by
  cases v with
  | bool b => cases b <;> exact ⟨_, rfl, rfl⟩
  | int t i =>
    refine ⟨i, rfl, ?_⟩
    have hpos : (0 : Int) < (2 ^ t.bits : Nat) := by exact_mod_cast Nat.two_pow_pos _
    have hpow : ((2 ^ t.bits : Nat) : Int) = 256 ^ t.size := by
      rw [t.two_pow_bits]
      push_cast
      rfl
    change (((i % (2 ^ t.bits : Nat)).toNat : Nat) : Int) = i % 256 ^ t.size
    rw [Int.toNat_of_nonneg (Int.emod_nonneg i (Int.ne_of_gt hpos)), hpow]
  | float t x => cases hf

/-! ## Buffers -/

/-- What is already there is put in place. -/
theorem overwrite_extract {bytes : Array UInt8} {start n : Nat} (h : start + n ≤ bytes.size) :
    overwrite bytes start (bytes.extract start (start + n)).toList = bytes := by
  have hlength : (bytes.extract start (start + n)).toList.length = n := by
    rw [Array.length_toList, Array.size_extract]
    omega
  refine Array.ext_getElem? fun k => ?_
  rcases Nat.lt_or_ge k start with hlt | hle
  · exact getElem?_overwrite_of_lt hlt
  · rcases Nat.lt_or_ge k (start + n) with hin | hout
    · obtain ⟨d, rfl⟩ := Nat.exists_eq_add_of_le hle
      have hsize : start + d < bytes.size := by omega
      rw [getElem?_overwrite hle (by omega), List.getD_eq_getElem?_getD, Array.getElem?_toList,
        Array.getElem?_extract, if_pos (by omega), Nat.add_sub_cancel_left,
        Array.getElem?_eq_getElem hsize]
      rfl
    · exact getElem?_overwrite_of_le (by rwa [hlength])

namespace Buffer

open Memory

variable {b b' : Buffer} {t : ScalarType} {i j k : Nat} {x : Value}

theorem readAs?_uint8 (b : Buffer) (k : Nat) :
    b.readAs? (.int .uint8) k = b.bytes[k]?.map fun byte => .int .uint8 byte.toNat := by
  have hsize : ScalarType.size (.int .uint8) = 1 := rfl
  rw [readAs?, hsize, Nat.mul_one]
  by_cases hk : k < b.bytes.size
  · have hextract : (b.bytes.extract k (k + 1)).toList = [b.bytes[k]] := by
      refine List.ext_getElem? fun n => ?_
      rw [Array.getElem?_toList, Array.getElem?_extract]
      cases n with
      | zero => simp [hk]
      | succ n => exact if_neg (by omega)
    rw [if_pos (show k + 1 ≤ b.size from hk), Array.getElem?_eq_getElem hk, hextract]
    simp [decodeElement, bytesWord, IntType.ofWord, IntType.isSigned]
  · rw [if_neg (show ¬ k + 1 ≤ b.size from hk), Array.getElem?_eq_none (Nat.le_of_not_lt hk)]
    rfl

theorem writeAs_eq_ok (hi : i < b.lengthAs t) : b.writeAs t i x = .ok b' ↔
    ∃ bytes, encodeElement t x = .ok bytes ∧
      { b with bytes := overwrite b.bytes (i * t.size) bytes } = b' := by
  rw [writeAs, if_pos (end_le_size hi), map_eq_ok]

/-- The second buffer is the first one with these bytes as element `i`. -/
structure Written (b b' : Buffer) (t : ScalarType) (i : Nat) (bytes : List UInt8) : Prop where
  shape : b'.shape = b.shape
  read : b'.readAs? t i = some (decodeElement t bytes)
  byte : ∀ k, k < t.size → b'.bytes[i * t.size + k]? = bytes[k]?
  others : ∀ j, j ≠ i → b'.readAs? t j = b.readAs? t j

theorem written {bytes : List UInt8} (hi : i < b.lengthAs t) (hlength : bytes.length = t.size) :
    b.Written { b with bytes := overwrite b.bytes (i * t.size) bytes } t i bytes := by
  have hend : i * t.size + t.size ≤ b.bytes.size := end_le_size hi
  have hshape : Buffer.shape { b with bytes := overwrite b.bytes (i * t.size) bytes } = b.shape := by
    simp [Buffer.shape, Buffer.size]
  refine ⟨hshape, ?_, ?_, ?_⟩
  · have hextract := extract_overwrite (hlength.symm ▸ hend)
    rw [hlength] at hextract
    rw [readAs?, if_pos (size_of_shape hshape ▸ hend), hextract]
  · intro k hk
    have hsize : i * t.size + k < b.bytes.size := by omega
    rw [getElem?_overwrite (Nat.le_add_right _ _) (by omega), Array.getElem?_eq_getElem hsize,
      Nat.add_sub_cancel_left, List.getD_eq_getElem?_getD, List.getElem?_eq_getElem (by omega)]
    rfl
  · intro j hj
    refine readAs?_congr hshape fun k hlo hhi => ?_
    rcases Nat.lt_or_gt_of_ne hj with hlt | hlt
    · exact getElem?_overwrite_of_lt (Nat.lt_of_lt_of_le hhi (Nat.mul_le_mul_right _ hlt))
    · refine getElem?_overwrite_of_le ?_
      rw [hlength, ← Nat.succ_mul]
      exact Nat.le_trans (Nat.mul_le_mul_right _ hlt) hlo

theorem written_of_writeAs (hi : i < b.lengthAs t) (h : b.writeAs t i x = .ok b') :
    ∃ bytes, encodeElement t x = .ok bytes ∧ b.Written b' t i bytes := by
  obtain ⟨bytes, he, rfl⟩ := (writeAs_eq_ok hi).mp h
  exact ⟨bytes, he, written hi (length_encodeElement he)⟩

/-! ## Writing and reading -/

theorem writeAs_float (hi : i < b.lengthAs t) (ht : t.isInt = true)
    (hx : x.type.isFloat = true) : b.writeAs t i x = .error (.incompatible x.number t) := by
  rw [writeAs, if_pos (end_le_size hi), encodeElement, if_pos (by rw [ht, hx]; rfl)]
  rfl

/-- What was written is read back, and its digits as bytes. -/
theorem exists_writeAs {y : Value} (hi : i < b.lengthAs t) (hf : t.isFloat = false)
    (hx : x.WellFormed) (hy : x.convert t = .ok y)
    (hguard : ¬ (t.isInt = true ∧ x.type.isFloat = true)) :
    ∃ b' n, b.writeAs t i x = .ok b' ∧ b'.readAs? t i = some y ∧ y.toInt? = some n ∧
      ∀ k, k < t.size → b'.readAs? (.int .uint8) (i * t.size + k) =
        some (.int .uint8 (n / 256 ^ k % 256)) := by
  have he : encodeElement t x = .ok (wordBytes y.word t.size) :=
    encodeElement_eq_ok.mpr ⟨hguard, y, hy, rfl⟩
  have hwritten := written hi (length_encodeElement he) (b := b)
  obtain ⟨rfl, hwell⟩ := Value.made_convert hx hy
  obtain ⟨n, hn, hword⟩ := Value.exists_word hf
  refine ⟨_, n, (writeAs_eq_ok hi).mpr ⟨_, he, rfl⟩, ?_, hn, ?_⟩
  · rw [hwritten.read, decodeElement_word hwell hf]
  · intro k hk
    have hdigit : ((UInt8.ofNat (y.word / 256 ^ k % 256)).toNat : Int) = n / 256 ^ k % 256 := by
      rw [UInt8.toNat_ofNat', Nat.mod_mod]
      push_cast
      rw [hword, emod_pow_ediv_emod hk]
    rw [readAs?_uint8, hwritten.byte k hk, getElem?_wordBytes hk, Option.map_some, hdigit]

/-- What was read is written as it was. -/
theorem writeAs_readAs? (hi : i < b.lengthAs t) (hx : b.readAs? t i = some x)
    (hbool : t = .bool → ∀ byte, b.bytes[i]? = some byte → byte = 0 ∨ byte = 1)
    (hnan : ∀ s z, x = .float s z → z.isNaN = false) : b.writeAs t i x = .ok b := by
  have hend : i * t.size + t.size ≤ b.size := end_le_size hi
  have hlength : (b.bytes.extract (i * t.size) (i * t.size + t.size)).toList.length = t.size := by
    rw [Array.length_toList, Array.size_extract, Nat.min_eq_left (show _ ≤ b.bytes.size from hend),
      Nat.add_sub_cancel_left]
  rw [readAs?, if_pos hend] at hx
  obtain rfl := Option.some.inj hx
  refine (writeAs_eq_ok hi).mpr ⟨_, encodeElement_decodeElement hlength ?_ hnan, ?_⟩
  · rintro rfl byte hbyte
    obtain ⟨k, hk, rfl⟩ := List.mem_iff_getElem.mp hbyte
    obtain rfl : k = 0 := Nat.lt_one_iff.mp (hk.trans_eq hlength)
    apply hbool rfl
    have hplace : i * ScalarType.bool.size = i := Nat.mul_one i
    have hsize : i < b.bytes.size := hplace ▸ hend
    simp [hplace, hsize]
  · rw [overwrite_extract hend]

/-! ## All elements -/

theorem lt_length_iff (b : Buffer) (i : Nat) :
    i < b.length ↔ i * b.format.size + b.format.size ≤ b.size := by
  rw [length, lengthAs, ← Nat.succ_mul, ← Nat.succ_le_iff, Nat.le_div_iff_mul_le b.format.size_pos]

/-- There are as many values as elements. -/
theorem length_toValues (b : Buffer) : b.toValues.length = b.length := by
  rw [toValues, List.length_map, length_chunks]

/-- The part of an element is where it is read. -/
theorem getElem?_toValues (b : Buffer) (i : Nat) : b.toValues[i]? = b.read? i := by
  rw [toValues, List.getElem?_map]
  rcases Nat.lt_or_ge i b.length with hi | hi
  · have hextract : (b.bytes.extract (i * b.format.size) (i * b.format.size + b.format.size)).toList =
        (b.bytes.toList.drop (i * b.format.size)).take b.format.size := by
      rw [Array.toList_extract, List.extract_eq_take_drop, Nat.add_sub_cancel_left]
    rw [getElem?_chunks hi, read?, readAs?, if_pos ((b.lt_length_iff i).mp hi), hextract]
    rfl
  · rw [List.getElem?_eq_none (by rwa [length_chunks]), read?, readAs?,
      if_neg (mt (b.lt_length_iff i).mpr (Nat.not_lt_of_le hi))]
    rfl

/-! ## Buffers of values -/

theorem length_zeros (t : ScalarType) (n : Nat) : (zeros t n).length = n := by
  simp [zeros, length, lengthAs, size, t.size_pos]

variable {v : Value} {vs : List Value}

theorem writeAll_cons_eq_ok (hi : i < b.length) : b.writeAll i (v :: vs) = .ok b' ↔
    ∃ bytes b₁, encodeElement b.format v = .ok bytes ∧ b.Written b₁ b.format i bytes ∧
      b.write i v = .ok b₁ ∧ b₁.writeAll (i + 1) vs = .ok b' := by
  rw [writeAll, bind_eq_ok]
  constructor
  · rintro ⟨b₁, hwrite, h⟩
    obtain ⟨bytes, he, hwritten⟩ := written_of_writeAs hi hwrite
    exact ⟨bytes, b₁, he, hwritten, hwrite, h⟩
  · rintro ⟨bytes, b₁, -, -, hwrite, h⟩
    exact ⟨b₁, hwrite, h⟩

theorem length_of_shape (h : b'.shape = b.shape) : b'.length = b.length := by
  rw [length, lengthAs_of_shape h, show b'.format = b.format from congrArg Prod.fst h, length]

theorem writeAll_isOk_iff (hin : i + vs.length ≤ b.length) :
    (∃ b', b.writeAll i vs = .ok b') ↔ ∀ v ∈ vs, v.Storable b.format := by
  induction vs generalizing b i with
  | nil => simp [writeAll]
  | cons v vs ih =>
    rw [List.length_cons] at hin
    have hi : i < b.length := by omega
    -- the rest is written to a buffer of the same shape
    have hrest {b₁ : Buffer} (hshape : b₁.shape = b.shape) :
        (∃ b', b₁.writeAll (i + 1) vs = .ok b') ↔ ∀ v ∈ vs, v.Storable b.format := by
      have hformat : b₁.format = b.format := congrArg Prod.fst hshape
      rw [ih (by rw [length_of_shape hshape]; omega), hformat]
    rw [List.forall_mem_cons, storable_iff]
    constructor
    · rintro ⟨b', h⟩
      obtain ⟨bytes, b₁, he, hwritten, -, h⟩ := (writeAll_cons_eq_ok hi).mp h
      exact ⟨⟨bytes, he⟩, (hrest hwritten.shape).mp ⟨b', h⟩⟩
    · rintro ⟨⟨bytes, he⟩, hvs⟩
      have hwritten := written hi (length_encodeElement he)
      obtain ⟨b', h⟩ := (hrest hwritten.shape).mpr hvs
      exact ⟨b', (writeAll_cons_eq_ok hi).mpr
        ⟨bytes, _, he, hwritten, (writeAs_eq_ok hi).mpr ⟨bytes, he, rfl⟩, h⟩⟩

/-- Every value is where it was written, and what is before them is as it was. -/
theorem read?_of_writeAll (hin : i + vs.length ≤ b.length) (h : b.writeAll i vs = .ok b') :
    b'.shape = b.shape ∧ (∀ j, j < i → b'.read? j = b.read? j) ∧
      ∀ k v, vs[k]? = some v → ∃ bytes, encodeElement b.format v = .ok bytes ∧
        b'.read? (i + k) = some (decodeElement b.format bytes) := by
  induction vs generalizing b i with
  | nil =>
    cases h
    exact ⟨rfl, fun _ _ => rfl, fun k v hv => by cases hv⟩
  | cons v vs ih =>
    rw [List.length_cons] at hin
    obtain ⟨bytes, b₁, he, hwritten, -, h⟩ := (writeAll_cons_eq_ok (by omega)).mp h
    have hformat : b₁.format = b.format := congrArg Prod.fst hwritten.shape
    obtain ⟨hshape, hbefore, hafter⟩ := ih (by rw [length_of_shape hwritten.shape]; omega) h
    rw [hformat] at hafter
    have hread (j : Nat) : b₁.read? j = b₁.readAs? b.format j := by rw [read?, hformat]
    refine ⟨hshape.trans hwritten.shape, ?_, ?_⟩
    · intro j hj
      rw [hbefore j (by omega), hread, hwritten.others j (by omega), read?]
    · intro k u hu
      cases k with
      | zero =>
        obtain rfl : v = u := Option.some.inj hu
        exact ⟨bytes, he, by rw [Nat.add_zero, hbefore i (Nat.lt_succ_self i), hread, hwritten.read]⟩
      | succ k =>
        obtain ⟨bytes', he', hread'⟩ := hafter k u hu
        exact ⟨bytes', he', by rwa [← Nat.add_assoc, Nat.add_right_comm]⟩

theorem ofValues_isOk_iff (t : ScalarType) (vs : List Value) :
    (∃ b', ofValues t vs = .ok b') ↔ ∀ v ∈ vs, v.Storable t := by
  refine writeAll_isOk_iff ?_
  rw [length_zeros, Nat.zero_add]

/-- A buffer of values has the values as they were converted. -/
theorem toValues_ofValues (hf : t.isFloat = false) (hvs : ∀ v ∈ vs, v.WellFormed)
    (h : ofValues t vs = .ok b') : vs.mapM (·.convert t) = .ok b'.toValues := by
  have hin : 0 + vs.length ≤ (zeros t vs.length).length := by rw [length_zeros, Nat.zero_add]
  obtain ⟨hshape, -, hread⟩ := read?_of_writeAll hin h
  have hlength : b'.toValues.length = vs.length := by
    rw [length_toValues, length_of_shape hshape, length_zeros]
  refine mapM_eq_ok.mpr (List.forall₂_iff_get.mpr ⟨hlength.symm, ?_⟩)
  intro k hk hk'
  obtain ⟨bytes, he, hget⟩ := hread k vs[k] (List.getElem?_eq_getElem hk)
  rw [Nat.zero_add, ← getElem?_toValues, List.getElem?_eq_getElem hk'] at hget
  rw [List.get_eq_getElem, List.get_eq_getElem, Option.some.inj hget]
  exact decodeElement_of_encodeElement (hvs _ (List.getElem_mem hk)) hf he

/-! ## The law -/

/-- A value that converts to a format of integers or truth values can be written to any
element, unless it is a float that goes into a format of integers, and the converted value is
read back, with the digits of the number as its bytes. What is read from an element is written
to it without a change, if a truth value is 0 or 1 and a float is no NaN. The values of a
buffer are its elements, and a buffer is made of values when each has a place in the format:
of integers and truth values, those that they convert to. -/
theorem round_trip (b : Buffer) (t : ScalarType) :
    (∀ i, i < b.lengthAs t →
      (t.isFloat = false → ∀ x : Value, x.WellFormed →
        (t.isInt = true → x.type.isFloat = true →
          b.writeAs t i x = .error (.incompatible x.number t)) ∧
        ∀ y, x.convert t = .ok y → ¬ (t.isInt = true ∧ x.type.isFloat = true) →
          ∃ b' n, b.writeAs t i x = .ok b' ∧ b'.readAs? t i = some y ∧ y.toInt? = some n ∧
            ∀ k, k < t.size → b'.readAs? (.int .uint8) (i * t.size + k) =
              some (.int .uint8 (n / 256 ^ k % 256))) ∧
      ∃ y, b.readAs? t i = some y ∧
        ((t = .bool → ∀ byte, b.bytes[i]? = some byte → byte = 0 ∨ byte = 1) →
          (∀ s z, y = .float s z → z.isNaN = false) → b.writeAs t i y = .ok b)) ∧
    (b.toValues.length = b.length ∧ ∀ i, b.toValues[i]? = b.read? i) ∧
    ∀ vs : List Value, ((∃ b', ofValues t vs = .ok b') ↔ ∀ v ∈ vs, v.Storable t) ∧
      ∀ b', ofValues t vs = .ok b' → t.isFloat = false → (∀ v ∈ vs, v.WellFormed) →
        vs.mapM (·.convert t) = .ok b'.toValues := by
  refine ⟨?_, ⟨b.length_toValues, b.getElem?_toValues⟩, ?_⟩
  · intro i hi
    refine ⟨fun hf x hx => ⟨writeAs_float hi, fun y => exists_writeAs hi hf hx⟩, ?_⟩
    have hread : b.readAs? t i = some _ := if_pos (end_le_size hi)
    exact ⟨_, hread, writeAs_readAs? hi hread⟩
  · intro vs
    refine ⟨ofValues_isOk_iff t vs, ?_⟩
    intro b' h hf hvs
    exact toValues_ofValues hf hvs h

/-- Two halfwords, as floats the least subnormal number and infinity. Both can be read and
written again; the second one takes the integer -2, the bytes of which are 254 and 255. -/
theorem round_trip_halfwords :
    let b : Buffer := ⟨.float .float16, #[0x01, 0x00, 0x00, 0x7C]⟩
    (∃ b', b.writeAs (.int .int16) 1 (.int .int32 (-2)) = .ok b' ∧
      b'.readAs? (.int .int16) 1 = some (.int .int16 (-2)) ∧
      b'.readAs? (.int .uint8) 2 = some (.int .uint8 254) ∧
      b'.readAs? (.int .uint8) 3 = some (.int .uint8 255)) ∧
    b.writeAs (.float .float16) 0 (.float .float16 ⟨0x3E70000000000000⟩) = .ok b ∧
    b.writeAs (.float .float16) 1 (.float .float16 ⟨0x7FF0000000000000⟩) = .ok b := by
  intro b
  have hleast : b.readAs? (.float .float16) 0 =
      some (.float .float16 ⟨0x3E70000000000000⟩) := by decide +kernel
  have hinfinity : b.readAs? (.float .float16) 1 =
      some (.float .float16 ⟨0x7FF0000000000000⟩) := by decide +kernel
  obtain ⟨hints, -⟩ := round_trip b (.int .int16)
  obtain ⟨hfloats, -⟩ := round_trip b (.float .float16)
  refine ⟨?_, ?_, ?_⟩
  · obtain ⟨hwrite, -⟩ := hints 1 (by decide)
    obtain ⟨-, hback⟩ := hwrite rfl (.int .int32 (-2)) (by decide)
    obtain ⟨b', n, hb', hread, hn, hdigits⟩ := hback (.int .int16 (-2)) rfl (by decide)
    cases hn
    exact ⟨b', hb', hread, hdigits 0 (by decide), hdigits 1 (by decide)⟩
  · obtain ⟨-, y, hy, hback⟩ := hfloats 0 (by decide)
    cases hy.symm.trans hleast
    refine hback (fun hbool => by cases hbool) ?_
    intro s z heq
    cases heq
    decide
  · obtain ⟨-, y, hy, hback⟩ := hfloats 1 (by decide)
    cases hy.symm.trans hinfinity
    refine hback (fun hbool => by cases hbool) ?_
    intro s z heq
    cases heq
    decide

/-- The float 2 converts to an integer, but no element of integers takes it. -/
theorem converted_float_not_written :
    let b := zeros (.int .int32) 1
    let x : Value := .float .float64 ⟨0x4000000000000000⟩
    0 < b.lengthAs (.int .int32) ∧ x.convert (.int .int32) = .ok (.int .int32 2) ∧
      ¬ ∃ b', b.writeAs (.int .int32) 0 x = .ok b' ∧
        b'.readAs? (.int .int32) 0 = some (.int .int32 2) := by
  intro b x
  have hwrite : b.writeAs (.int .int32) 0 x = .error (.incompatible x.number (.int .int32)) := rfl
  refine ⟨by decide, by decide +kernel, ?_⟩
  rintro ⟨b', hb', -⟩
  cases hwrite.symm.trans hb'

end Buffer

end Lockstep
