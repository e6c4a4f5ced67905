import Lockstep.Proofs.Memory.Integers

/-!
# Single elements

A read or write of one element through a view fails outside the view and nowhere else, but
that a write also fails when the value has no place in the format. A write that is done
replaces the bytes of its element and no others, and a value stored in a format of integers
or truth values is read back as it was converted.
-/

namespace Lockstep

/-! ## Elements and their bytes -/

/-- The value has a place in a format: it converts to it, and it is no float that goes into
a format of integers. -/
def Value.Storable (x : Value) (t : ScalarType) : Prop :=
  (∃ w, x.convert t = .ok w) ∧ ¬ (t.isInt = true ∧ x.type.isFloat = true)

section

variable {x : Value} {t : ScalarType} {bytes : List UInt8}

theorem encodeElement_eq_ok :
    encodeElement t x = .ok bytes ↔ ¬ (t.isInt = true ∧ x.type.isFloat = true) ∧
      ∃ w, x.convert t = .ok w ∧ wordBytes w.word t.size = bytes := by
  unfold encodeElement
  split
  · rename_i h
    simp [Bool.and_eq_true_iff.mp h]
  · rename_i h
    rw [map_eq_ok]
    exact ⟨fun hw => ⟨fun hand => h (Bool.and_eq_true_iff.mpr hand), hw⟩, And.right⟩

theorem storable_iff : x.Storable t ↔ ∃ bytes, encodeElement t x = .ok bytes := by
  constructor
  · rintro ⟨⟨w, hw⟩, hfloat⟩
    exact ⟨_, encodeElement_eq_ok.mpr ⟨hfloat, w, hw, rfl⟩⟩
  · rintro ⟨bytes, h⟩
    obtain ⟨hfloat, w, hw, -⟩ := encodeElement_eq_ok.mp h
    exact ⟨⟨w, hw⟩, hfloat⟩

/-- The bytes of a truth value or an integer stand for it. -/
theorem decodeElement_word {w : Value} (hw : w.WellFormed) (hf : w.type.isFloat = false) :
    decodeElement w.type (wordBytes w.word w.type.size) = w := by
  cases w with
  | bool b => cases b <;> rfl
  | int s i => exact IntType.decodeElement_wordBytes hw
  | float s y => cases hf

theorem decodeElement_of_encodeElement (hx : x.WellFormed) (hf : t.isFloat = false)
    (h : encodeElement t x = .ok bytes) : x.convert t = .ok (decodeElement t bytes) := by
  obtain ⟨-, w, hw, rfl⟩ := encodeElement_eq_ok.mp h
  obtain ⟨rfl, hwell⟩ := Value.made_convert hx hw
  rw [decodeElement_word hwell hf, hw]

end

/-- There is an element of this number in the buffer seen as elements of the type. -/
def Buffer.HasElement (b : Buffer) (t : ScalarType) (i : Int) : Prop := 0 ≤ i ∧ i < b.lengthAs t

instance (b : Buffer) (t : ScalarType) (i : Int) : Decidable (b.HasElement t i) :=
  inferInstanceAs (Decidable (0 ≤ i ∧ i < b.lengthAs t))

theorem Buffer.hasElement_of_shape {b b' : Buffer} (h : b'.shape = b.shape) {t : ScalarType}
    {i : Int} : b'.HasElement t i ↔ b.HasElement t i := by
  rw [HasElement, HasElement, lengthAs_of_shape h]

namespace Memory

variable {m m' : Memory} {v : View} {b : Buffer} {i : Int} {x : Value} {bytes : List UInt8}

theorem slot_of_hasElement {t : ScalarType} (hi : b.HasElement t i) (a : Access) :
    slot b t i a = .ok i.toNat :=
  if_pos hi

theorem slot_of_not_hasElement {t : ScalarType} (hi : ¬ b.HasElement t i) (a : Access) :
    slot b t i a = .error (.outOfBounds a i (b.lengthAs t)) :=
  if_neg hi

/-! ## Reads -/

theorem read_of_hasElement (hb : m.buffer? v.buffer = some b) (hi : b.HasElement v.format i) :
    ∃ y, b.readAs? v.format i.toNat = some y ∧ m.read v i = .ok y := by
  obtain ⟨-, hend⟩ := slot_eq_ok (slot_of_hasElement hi .load)
  have hread : b.readAs? v.format i.toNat = some _ := if_pos hend
  refine ⟨_, hread, ?_⟩
  simp [read, resolve_eq_ok.mpr hb, slot_of_hasElement hi, hread, bind, Except.bind, pure,
    Except.pure]

theorem read_of_not_hasElement (hb : m.buffer? v.buffer = some b)
    (hi : ¬ b.HasElement v.format i) :
    m.read v i = .error (.outOfBounds .load i (b.lengthAs v.format)) := by
  simp [read, resolve_eq_ok.mpr hb, slot_of_not_hasElement hi, bind, Except.bind]

theorem read_isOk_iff (hb : m.buffer? v.buffer = some b) :
    (∃ y, m.read v i = .ok y) ↔ b.HasElement v.format i := by
  constructor
  · rintro ⟨y, hy⟩
    by_contra hi
    rw [read_of_not_hasElement hb hi] at hy
    cases hy
  · intro hi
    obtain ⟨y, -, hy⟩ := read_of_hasElement hb hi
    exact ⟨y, hy⟩

/-! ## Writes -/

theorem write_of_not_hasElement (hb : m.buffer? v.buffer = some b)
    (hi : ¬ b.HasElement v.format i) (x : Value) :
    m.write v i x = .error (.outOfBounds .store i (b.lengthAs v.format)) := by
  simp [write, resolve_eq_ok.mpr hb, slot_of_not_hasElement hi, bind, Except.bind]

/-- Within the view the encoding decides. -/
theorem written_of_hasElement (hb : m.buffer? v.buffer = some b) (hi : b.HasElement v.format i)
    (x : Value) : m.written v i x =
      (encodeElement v.format x).mapError fun e => .conversion (.stored x v.format e) := by
  simp [written, resolve_eq_ok.mpr hb, slot_of_hasElement hi, bind, Except.bind]

theorem write_eq_ok (hb : m.buffer? v.buffer = some b) :
    m.write v i x = .ok m' ↔ b.HasElement v.format i ∧
      ∃ bytes, encodeElement v.format x = .ok bytes ∧ m' = m.put v i bytes := by
  by_cases hi : b.HasElement v.format i
  · rw [write_eq, written_of_hasElement hb hi, map_eq_ok]
    constructor
    · rintro ⟨bytes, h, rfl⟩
      exact ⟨hi, bytes, mapError_eq_ok.mp h, rfl⟩
    · rintro ⟨-, bytes, h, rfl⟩
      exact ⟨bytes, mapError_eq_ok.mpr h, rfl⟩
  · simp [write_of_not_hasElement hb hi, hi]

/-- A value that has no place in the format is refused with the reason why. -/
theorem write_of_not_storable (hb : m.buffer? v.buffer = some b) (hi : b.HasElement v.format i)
    (hx : ¬ x.Storable v.format) :
    ∃ e, m.write v i x = .error (.conversion (.stored x v.format e)) := by
  cases he : encodeElement v.format x with
  | ok bytes => exact absurd (storable_iff.mpr ⟨bytes, he⟩) hx
  | error e =>
    refine ⟨e, ?_⟩
    rw [write_eq, written_of_hasElement hb hi, he]
    rfl

/-- The three ends of a write. -/
theorem write_cases (hb : m.buffer? v.buffer = some b) (i : Int) (x : Value) :
    (¬ b.HasElement v.format i ∧
        m.write v i x = .error (.outOfBounds .store i (b.lengthAs v.format))) ∨
      (b.HasElement v.format i ∧ ¬ x.Storable v.format ∧
        ∃ e, m.write v i x = .error (.conversion (.stored x v.format e))) ∨
      (b.HasElement v.format i ∧ x.Storable v.format ∧ ∃ m', m.write v i x = .ok m') := by
  by_cases hi : b.HasElement v.format i
  · by_cases hx : x.Storable v.format
    · obtain ⟨bytes, he⟩ := storable_iff.mp hx
      exact .inr (.inr ⟨hi, hx, _, (write_eq_ok hb).mpr ⟨hi, bytes, he, rfl⟩⟩)
    · exact .inr (.inl ⟨hi, hx, write_of_not_storable hb hi hx⟩)
  · exact .inl ⟨hi, write_of_not_hasElement hb hi x⟩

theorem write_outOfBounds_iff (hb : m.buffer? v.buffer = some b) :
    (∃ a j n, m.write v i x = .error (.outOfBounds a j n)) ↔ ¬ b.HasElement v.format i := by
  rcases write_cases hb i x with ⟨hi, h⟩ | ⟨hi, -, e, h⟩ | ⟨hi, -, m', h⟩
  · simp [h, hi]
  · simp [h, hi]
  · simp [h, hi]

theorem write_conversion_iff (hb : m.buffer? v.buffer = some b) :
    (∃ e, m.write v i x = .error (.conversion e)) ↔
      b.HasElement v.format i ∧ ¬ x.Storable v.format := by
  rcases write_cases hb i x with ⟨hi, h⟩ | ⟨hi, hs, e, h⟩ | ⟨hi, hs, m', h⟩
  · simp [h, hi]
  · simp [h, hi, hs]
  · simp [h, hs]

theorem write_isOk_iff (hb : m.buffer? v.buffer = some b) :
    (∃ m', m.write v i x = .ok m') ↔ b.HasElement v.format i ∧ x.Storable v.format := by
  rcases write_cases hb i x with ⟨hi, h⟩ | ⟨-, hs, e, h⟩ | ⟨hi, hs, m', h⟩
  · simp [h, hi]
  · simp [h, hs]
  · simp [h, hi, hs]

/-! ## Bytes put in place -/

/-- The second memory has these bytes in place of element `i` of the view, whose buffer in
the first is `b`, and is the same elsewhere. -/
structure Replaces (m m' : Memory) (v : View) (b : Buffer) (i : Nat) (bytes : List UInt8) :
    Prop where
  cursor : m'.bound = m.bound
  others : ∀ r, r ≠ v.buffer → m'.buffer? r = m.buffer? r
  buffer : ∃ b', m'.buffer? v.buffer = some b' ∧ b'.shape = b.shape ∧
    (∀ k, k < i * v.format.size ∨ (i + 1) * v.format.size ≤ k → b'.bytes[k]? = b.bytes[k]?) ∧
    (b'.bytes.extract (i * v.format.size) ((i + 1) * v.format.size)).toList = bytes

theorem buffer?_put (bytes : List UInt8) (hb : m.buffer? v.buffer = some b) :
    (m.put v i bytes).buffer? v.buffer =
      some { b with bytes := overwrite b.bytes (i.toNat * v.format.size) bytes } := by
  rw [← put_eq_setBuffer hb]
  exact buffer?_setBuffer hb

theorem buffer?_put_of_ne {r : BufferRef} (hr : r ≠ v.buffer) (m : Memory) (i : Int)
    (bytes : List UInt8) : (m.put v i bytes).buffer? r = m.buffer? r := by
  obtain ⟨q, t⟩ := v
  cases q with
  | global n =>
    cases r with
    | global k => exact Patch.getElem?_apply_of_ne fun he => hr (congrArg _ he.symm)
    | scratch k => rfl
  | scratch n =>
    cases r with
    | global k => rfl
    | scratch k => exact Patch.getElem?_apply_of_ne fun he => hr (congrArg _ he.symm)

theorem bound_put (m : Memory) (v : View) (i : Int) (bytes : List UInt8) :
    (m.put v i bytes).bound = m.bound := by
  obtain ⟨r, t⟩ := v
  cases r <;> rfl

theorem replaces_put (hb : m.buffer? v.buffer = some b) (hi : b.HasElement v.format i)
    (hlength : bytes.length = v.format.size) :
    m.Replaces (m.put v i bytes) v b i.toNat bytes := by
  obtain ⟨-, hend⟩ := slot_eq_ok (slot_of_hasElement hi .store)
  refine ⟨bound_put _ _ _ _, fun r hr => buffer?_put_of_ne hr m i bytes, _, buffer?_put bytes hb,
    ?_, fun k hk => ?_, ?_⟩
  · simp [Buffer.shape, Buffer.size]
  · rw [Nat.succ_mul] at hk
    rcases hk with hk | hk
    · exact getElem?_overwrite_of_lt hk
    · exact getElem?_overwrite_of_le (by rwa [hlength])
  · rw [Nat.succ_mul, ← hlength]
    exact extract_overwrite (by rw [hlength]; exact hend)

/-- What is in the place of the element is what is read. -/
theorem Replaces.read (h : m.Replaces m' v b i.toNat bytes) (hi : b.HasElement v.format i) :
    m'.read v i = .ok (decodeElement v.format bytes) := by
  obtain ⟨b', hb', hshape, -, hbytes⟩ := h.buffer
  have hi' : b'.HasElement v.format i := (Buffer.hasElement_of_shape hshape).mpr hi
  obtain ⟨y, hy, hread⟩ := read_of_hasElement hb' hi'
  rw [Buffer.readAs?, if_pos (slot_eq_ok (slot_of_hasElement hi' .load)).2, ← Nat.succ_mul,
    hbytes] at hy
  cases hy
  exact hread

/-- The other elements are read as before. -/
theorem Replaces.read_of_ne {k : Int} (h : m.Replaces m' v b i.toNat bytes)
    (hb : m.buffer? v.buffer = some b) (hi : 0 ≤ i) (hne : k ≠ i) : m'.read v k = m.read v k := by
  obtain ⟨b', hb', hshape, hother, -⟩ := h.buffer
  by_cases hk : b.HasElement v.format k
  · have hk' : b'.HasElement v.format k := (Buffer.hasElement_of_shape hshape).mpr hk
    have hapart : k.toNat + 1 ≤ i.toNat ∨ i.toNat + 1 ≤ k.toNat := by
      have := hk.1
      omega
    have hsame : b'.readAs? v.format k.toNat = b.readAs? v.format k.toNat := by
      refine Buffer.readAs?_congr hshape fun n hlo hhi => hother n ?_
      rcases hapart with hlt | hlt
      · exact .inl (Nat.lt_of_lt_of_le hhi (Nat.mul_le_mul_right _ hlt))
      · exact .inr (Nat.le_trans (Nat.mul_le_mul_right _ hlt) hlo)
    obtain ⟨y, hy, hread⟩ := read_of_hasElement hb hk
    obtain ⟨y', hy', hread'⟩ := read_of_hasElement hb' hk'
    rw [hsame, hy] at hy'
    cases hy'
    rw [hread, hread']
  · have hk' : ¬ b'.HasElement v.format k := mt (Buffer.hasElement_of_shape hshape).mp hk
    rw [read_of_not_hasElement hb hk, read_of_not_hasElement hb' hk',
      Buffer.lengthAs_of_shape hshape]

/-! ## The law -/

/-- Reads succeed within the view and fail outside with the index and the length. Writes fail
outside in the same way, within the view they fail just when the value has no place in the
format, and else they are done. A write that is done replaces the bytes of its element by
the encoding of the value, and where the format is one of integers or truth values the
converted value is read back. A write that fails changes nothing, and no later one is done. -/
theorem bounds_checked (hb : m.buffer? v.buffer = some b) (i : Int) (hx : x.WellFormed) :
    ((∃ y, m.read v i = .ok y) ↔ b.HasElement v.format i) ∧
    (¬ b.HasElement v.format i →
      m.read v i = .error (.outOfBounds .load i (b.lengthAs v.format))) ∧
    ((∃ a j n, m.write v i x = .error (.outOfBounds a j n)) ↔ ¬ b.HasElement v.format i) ∧
    (¬ b.HasElement v.format i →
      m.write v i x = .error (.outOfBounds .store i (b.lengthAs v.format))) ∧
    ((∃ e, m.write v i x = .error (.conversion e)) ↔
      b.HasElement v.format i ∧ ¬ x.Storable v.format) ∧
    ((∃ m', m.write v i x = .ok m') ↔ b.HasElement v.format i ∧ x.Storable v.format) ∧
    (∀ m', m.write v i x = .ok m' → ∃ bytes, encodeElement v.format x = .ok bytes ∧
      m.Replaces m' v b i.toNat bytes ∧
      (v.format.isFloat = false → ∃ w, x.convert v.format = .ok w ∧ m'.read v i = .ok w)) ∧
    ∀ f, m.write v i x = .error f → ∀ ws, m.perform (⟨v, .ok i, x⟩ :: ws) = (m, .error f) := by
  refine ⟨read_isOk_iff hb, read_of_not_hasElement hb, write_outOfBounds_iff hb,
    fun hi => write_of_not_hasElement hb hi x, write_conversion_iff hb, write_isOk_iff hb, ?_, ?_⟩
  · intro m' hm'
    obtain ⟨hi, bytes, he, rfl⟩ := (write_eq_ok hb).mp hm'
    have hreplaces := replaces_put hb hi (length_encodeElement he)
    refine ⟨bytes, he, hreplaces, ?_⟩
    intro hf
    exact ⟨_, decodeElement_of_encodeElement hx hf he, hreplaces.read hi⟩
  · intro f hf ws
    simp only [perform, hf]

/-- Four bytes seen as two halfwords: the second takes a 32-bit integer that fits and gives it
back, there is no third, and the write beyond leaves the bytes as they are. -/
theorem bounds_checked_halfwords :
    let m : Memory := .ofBuffers [⟨.int .uint8, #[1, 2, 3, 4]⟩]
    let v : View := ⟨.global 0, .int .int16⟩
    let x : Value := .int .int32 (-2)
    m.buffer? v.buffer = some ⟨.int .uint8, #[1, 2, 3, 4]⟩ ∧ x.WellFormed ∧
      (∃ m', m.write v 1 x = .ok m' ∧ m'.read v 1 = .ok (.int .int16 (-2))) ∧
      m.read v 2 = .error (.outOfBounds .load 2 2) ∧
      m.perform [⟨v, .ok 2, x⟩] = (m, .error (.outOfBounds .store 2 2)) := by
  intro m v x
  have hb : m.buffer? v.buffer = some ⟨.int .uint8, #[1, 2, 3, 4]⟩ := rfl
  have hx : x.WellFormed := by decide
  have hlength : Buffer.lengthAs ⟨.int .uint8, #[1, 2, 3, 4]⟩ v.format = 2 := by decide
  have hone := bounds_checked hb 1 hx
  have htwo := bounds_checked hb 2 hx
  rw [hlength] at htwo
  obtain ⟨m', hm'⟩ := hone.2.2.2.2.2.1.mpr ⟨by decide, ⟨_, rfl⟩, by decide⟩
  obtain ⟨bytes, -, -, hread⟩ := hone.2.2.2.2.2.2.1 m' hm'
  obtain ⟨w, hw, hback⟩ := hread rfl
  cases hw
  exact ⟨hb, hx, ⟨m', hm', hback⟩, htwo.2.1 (by decide),
    htwo.2.2.2.2.2.2.2 _ (htwo.2.2.2.1 (by decide)) []⟩

end Memory

end Lockstep
