import Lockstep.Proofs.Value.WellFormed

/-!
# Tags and payloads

A value as it is held in memory: a tag, and a payload in one of four shapes that
the tag does not force on it. The functions here read an integer out of a payload
that may have none and go on with a default. On well-formed values the default is
never used: whatever it is, they do what the typed functions do.
-/

namespace Lockstep

/-- A payload. An integer is kept in a word of 64 bits. -/
inductive Payload where
  | bool (b : Bool)
  | int (i : Int64)
  | uint (u : UInt64)
  | float (x : Binary64)
  deriving DecidableEq

/-- A tag and a payload of any shape. -/
structure Tagged where
  type : ScalarType
  payload : Payload
  deriving DecidableEq

namespace Payload

/-- The integer that a payload stands for; a float has none. -/
def toInt? : Payload → Option Int
  | bool b => some (if b then 1 else 0)
  | int i => some i.toInt
  | uint u => some u.toNat
  | float _ => none

def toFloat : Payload → Binary64
  | bool b => if b then .one else .zero
  | int i => .ofInt i.toInt
  | uint u => .ofInt u.toNat
  | float x => x

def number : Payload → Number
  | bool b => .truth b
  | int i => .whole i.toInt
  | uint u => .whole u.toNat
  | float x => .real x

def truthy : Payload → Bool
  | bool b => b
  | int i => i.toInt != 0
  | uint u => u.toNat != 0
  | float x => !x.isZero

/-- The shape of payload that goes with a family of types. -/
def Suits : Payload → Family → Prop
  | bool _, .bool => True
  | int _, .signed => True
  | uint _, .unsigned => True
  | float _, .float => True
  | _, _ => False

/-- The payload of an integer under a tag, cut to a word. -/
def ofInt (t : IntType) (i : Int) : Payload :=
  if t.isSigned then int (Int64.ofInt i) else uint (UInt64.ofInt i)

end Payload

namespace Tagged

/-- The payload has the shape of its tag, and an integer lies in the tag's range. -/
def WellFormed (v : Tagged) : Prop :=
  v.payload.Suits v.type.family ∧
    ∀ t i, v.type = .int t → v.payload.toInt? = some i → t.min ≤ i ∧ i ≤ t.max

/-! ## Functions with defaults -/

def ofFloatChecked (t : FloatType) (x : Binary64) : Except ConvertError Tagged :=
  if x.isFinite && t.max.lt x.abs then .error (.overflow (.real x) (.float t))
  else .ok ⟨.float t, .float x⟩

def ofInt (i : Int) (target : ScalarType) : Except ConvertError Tagged :=
  match target with
  | .bool =>
    if i = 0 ∨ i = 1 then .ok ⟨.bool, .bool (i == 1)⟩
    else .error (.incompatible (.whole i) .bool)
  | .int t =>
    if i < t.min ∨ t.max < i then .error (.overflow (.whole i) (.int t))
    else .ok ⟨.int t, .ofInt t i⟩
  | .float t => ofFloatChecked t (.ofInt i)

def ofFloat (x : Binary64) (target : ScalarType) : Except ConvertError Tagged :=
  match target with
  | .bool =>
    if x.isZero ∨ x.eq .one then .ok ⟨.bool, .bool (x.eq .one)⟩
    else .error (.incompatible (.real x) .bool)
  | .int t =>
    match x.truncate with
    | some i => ofInt (Wide.clamp i) (.int t)
    | none => .error (.incompatible (.real x) (.int t))
  | .float t => ofFloatChecked t x

/-- A payload without an integer converts as `default`. -/
def convert (default : Int) (v : Tagged) (target : ScalarType) : Except ConvertError Tagged :=
  if v.type = target then .ok v
  else
    match v.payload with
    | .float x => ofFloat x target
    | payload => ofInt (payload.toInt?.getD default) target

/-- The number of an operand in a family; a payload without an integer counts as
`default`. -/
def operandNumber (default : Int) (family : Family) (v : Tagged) : Number :=
  match v.payload, family with
  | .float x, _ => .real x
  | .bool b, .bool => .truth b
  | payload, .float => .real payload.toFloat
  | payload, _ => .whole (payload.toInt?.getD default)

/-- The element that the bytes hold; an integer that the format cannot hold
becomes `default`. -/
def decode (default : Tagged) (t : ScalarType) (bytes : List UInt8) : Tagged :=
  match t with
  | .bool => ⟨.bool, .bool (bytes.headD 0 != 0)⟩
  | .int s =>
    match ofInt (s.ofWord (bytesWord bytes)) (.int s) with
    | .ok v => v
    | .error _ => default
  | .float s => ⟨.float s, .float (s.ofWord (bytesWord bytes))⟩

/-- The bytes of a value converted to the element type; a converted payload
without an integer is written to an integer format as `default`. -/
def encode (default : Int) (t : ScalarType) (v : Tagged) : Except ConvertError (List UInt8) :=
  if t.isInt && v.type.isFloat then .error (.incompatible v.payload.number t)
  else (v.convert default t).map fun w =>
    match t with
    | .bool => wordBytes (if w.payload.truthy then 1 else 0) t.size
    | .int s => wordBytes (s.toWord (w.payload.toInt?.getD default)) t.size
    | .float s => wordBytes (s.toWord w.payload.toFloat) t.size

end Tagged

/-- The tag and the payload of a value. -/
def Value.tagged : Value → Tagged
  | bool b => ⟨.bool, .bool b⟩
  | int t i => ⟨.int t, .ofInt t i⟩
  | float t x => ⟨.float t, .float x⟩

/-! ## The payload of an integer -/

namespace Payload

variable {t : IntType} {i : Int}

/-- The words hold the integers of every type. -/
theorem toInt?_ofInt (h : t.contains i = true) : (ofInt t i).toInt? = some i := by
  rw [IntType.contains_iff] at h
  unfold ofInt
  cases hs : t.isSigned with
  | true =>
    have hrange : -2 ^ 63 ≤ i ∧ i < 2 ^ 63 := by
      cases t <;> simp [IntType.isSigned] at hs <;>
        simp [IntType.min, IntType.max, IntType.isSigned, IntType.bits, IntType.size] at h <;> omega
    exact congrArg some (Int64.toInt_ofInt_of_le hrange.1 hrange.2)
  | false =>
    have hrange : 0 ≤ i ∧ i < 2 ^ 64 := by
      cases t <;> simp [IntType.isSigned] at hs <;>
        simp [IntType.min, IntType.max, IntType.isSigned, IntType.bits, IntType.size] at h <;> omega
    refine congrArg some ?_
    change ((UInt64.ofNat (i % 2 ^ 64).toNat).toNat : Int) = i
    rw [UInt64.toNat_ofNat']
    omega

theorem ofInt_cases (t : IntType) (i : Int) :
    (∃ w, ofInt t i = int w ∧ t.isSigned = true) ∨ ∃ w, ofInt t i = uint w ∧ t.isSigned = false := by
  unfold ofInt
  cases t.isSigned with
  | true => exact .inl ⟨_, rfl, rfl⟩
  | false => exact .inr ⟨_, rfl, rfl⟩

theorem suits_ofInt : (ofInt t i).Suits (ScalarType.int t).family := by
  obtain ⟨w, hw, hs⟩ | ⟨w, hw, hs⟩ := ofInt_cases t i
  · rw [hw, ScalarType.family, if_pos hs]
    trivial
  · rw [hw, ScalarType.family, if_neg (by simp [hs])]
    trivial

theorem toFloat_ofInt (h : t.contains i = true) : (ofInt t i).toFloat = .ofInt i := by
  have hint := toInt?_ofInt h
  obtain ⟨w, hw, -⟩ | ⟨w, hw, -⟩ := ofInt_cases t i
  · rw [hw] at hint ⊢
    exact congrArg Binary64.ofInt (Option.some.inj hint)
  · rw [hw] at hint ⊢
    exact congrArg Binary64.ofInt (Option.some.inj hint)

theorem number_ofInt (h : t.contains i = true) : (ofInt t i).number = .whole i := by
  have hint := toInt?_ofInt h
  obtain ⟨w, hw, -⟩ | ⟨w, hw, -⟩ := ofInt_cases t i
  · rw [hw] at hint ⊢
    exact congrArg Number.whole (Option.some.inj hint)
  · rw [hw] at hint ⊢
    exact congrArg Number.whole (Option.some.inj hint)

/-- Of the suiting shape, a payload is determined by its integer. -/
theorem eq_ofInt {q : Payload} (hs : q.Suits (ScalarType.int t).family)
    (hq : q.toInt? = some i) : q = ofInt t i := by
  cases q with
  | bool b => cases t <;> cases hs
  | float x => cases hq
  | int w =>
    have ht : t.isSigned = true := by cases t <;> first | rfl | cases hs
    cases hq
    rw [ofInt, if_pos ht, Int64.ofInt_toInt]
  | uint w =>
    have ht : t.isSigned = false := by cases t <;> first | rfl | cases hs
    cases hq
    rw [ofInt, if_neg (by simp [ht])]
    refine congrArg uint ?_
    have hw : w.toNat < 2 ^ 64 := w.toNat_lt
    have hmod : ((w.toNat : Int) % 2 ^ 64).toNat = w.toNat := by omega
    rw [UInt64.ofInt, hmod, UInt64.ofNat_toNat]

end Payload

/-! ## Well-formed tags and payloads -/

namespace Value

variable {v : Value} {t : ScalarType}

theorem wellFormed_tagged (h : v.WellFormed) : v.tagged.WellFormed := by
  cases v with
  | bool b => exact ⟨trivial, nofun⟩
  | float s x => exact ⟨trivial, nofun⟩
  | int s i =>
    refine ⟨Payload.suits_ofInt, fun t j ht hj => ?_⟩
    cases ht
    have hi : some i = some j := (Payload.toInt?_ofInt h).symm.trans hj
    cases hi
    exact wellFormed_int.mp h

end Value

/-- The well-formed tags with payloads are those of the well-formed values. -/
theorem Tagged.wellFormed_iff {w : Tagged} :
    w.WellFormed ↔ ∃ v : Value, v.WellFormed ∧ v.tagged = w := by
  constructor
  · intro h
    obtain ⟨t, q⟩ := w
    obtain ⟨hs, hrange⟩ := h
    cases t with
    | bool =>
      cases q with
      | bool b => exact ⟨.bool b, trivial, rfl⟩
      | _ => cases hs
    | float t =>
      cases q with
      | float x => exact ⟨.float t x, trivial, rfl⟩
      | _ => cases hs
    | int t =>
      obtain ⟨i, hi⟩ : ∃ i, q.toInt? = some i := by
        cases q with
        | float x => cases t <;> cases hs
        | _ => exact ⟨_, rfl⟩
      refine ⟨.int t i, Value.wellFormed_int.mpr (hrange t i rfl hi), ?_⟩
      rw [Value.tagged, ← Payload.eq_ofInt hs hi]
  · rintro ⟨v, hv, rfl⟩
    exact Value.wellFormed_tagged hv

/-! ## Defaults are never used -/

theorem Binary64.eq_one_of_isZero {x : Binary64} (h : x.isZero = true) : x.eq .one = false := by
  have hmag : x.magnitude = 0 := of_decide_eq_true h
  have hone : Binary64.one.key = 0x3FF0000000000000 := by decide
  have hkey : x.key = 0 := by simp [key, hmag]
  simp [eq, hkey, hone]

namespace Value

variable {v : Value} {t : ScalarType}

theorem ofFloatChecked_tagged (t : FloatType) (x : Binary64) :
    Tagged.ofFloatChecked t x = (ofFloatChecked t x).map tagged := by
  unfold Tagged.ofFloatChecked ofFloatChecked
  split <;> rfl

theorem ofInt_tagged (i : Int) (t : ScalarType) :
    Tagged.ofInt i t = (ofInt i t).map tagged := by
  cases t with
  | bool =>
    by_cases h₀ : i = 0
    · subst h₀
      rfl
    · by_cases h₁ : i = 1
      · subst h₁
        rfl
      · simp [Tagged.ofInt, ofInt, h₀, h₁, Except.map]
  | int t =>
    cases h : t.contains i with
    | true =>
      have hr := IntType.contains_iff.mp h
      rw [Tagged.ofInt, if_neg (by omega), ofInt, if_pos h]
      rfl
    | false =>
      have hr := (not_congr IntType.contains_iff).mp (Bool.eq_false_iff.mp h)
      rw [Tagged.ofInt, if_pos (by omega), ofInt, if_neg (by simp [h])]
      rfl
  | float t => exact ofFloatChecked_tagged t _

theorem ofFloat_tagged (x : Binary64) (t : ScalarType) :
    Tagged.ofFloat x t = (ofFloat x t).map tagged := by
  cases t with
  | bool =>
    unfold Tagged.ofFloat ofFloat
    dsimp only
    cases h₀ : x.isZero with
    | true =>
      have h₁ : x.eq .one = false := Binary64.eq_one_of_isZero h₀
      simp [h₁, Except.map, tagged]
    | false => cases h₁ : x.eq .one <;> simp [Except.map, tagged]
  | int t =>
    unfold Tagged.ofFloat ofFloat
    dsimp only
    cases x.truncate with
    | none => rfl
    | some i => exact ofInt_tagged _ _
  | float t => exact ofFloatChecked_tagged t x

/-- A well-formed value converts as its payload does, whatever the default. -/
theorem convert_tagged (hv : v.WellFormed) (default : Int) (t : ScalarType) :
    v.tagged.convert default t = (v.convert t).map tagged := by
  have htype : v.tagged.type = v.type := by cases v <;> rfl
  unfold Tagged.convert convert
  rw [htype]
  split
  · rfl
  · cases v with
    | bool b => exact ofInt_tagged _ _
    | float s x => exact ofFloat_tagged _ _
    | int s i =>
      have hi := Payload.toInt?_ofInt hv
      obtain ⟨w, hw, -⟩ | ⟨w, hw, -⟩ := Payload.ofInt_cases s i
      · simp only [tagged, hw] at hi ⊢
        rw [hi]
        exact ofInt_tagged i t
      · simp only [tagged, hw] at hi ⊢
        rw [hi]
        exact ofInt_tagged i t

/-- The number of an operand does not depend on the default. -/
theorem operandNumber_tagged (hv : v.WellFormed) (default : Int) (family : Family) :
    v.tagged.operandNumber default family = Alu.operandNumber family v := by
  cases v with
  | bool b => cases family <;> rfl
  | float s x => cases family <;> rfl
  | int s i =>
    have hi := Payload.toInt?_ofInt hv
    have hx := Payload.toFloat_ofInt hv
    obtain ⟨w, hw, -⟩ | ⟨w, hw, -⟩ := Payload.ofInt_cases s i
    · rw [hw] at hi hx
      cases family <;> simp [Tagged.operandNumber, tagged, hw, hi, hx, Alu.operandNumber, number,
        Number.toFloat]
    · rw [hw] at hi hx
      cases family <;> simp [Tagged.operandNumber, tagged, hw, hi, hx, Alu.operandNumber, number,
        Number.toFloat]

end Value

/-- The bytes of an element always hold an integer of the format. -/
theorem decodeElement_tagged {t : ScalarType} {bytes : List UInt8} (h : bytes.length = t.size)
    (default : Tagged) : Tagged.decode default t bytes = (decodeElement t bytes).tagged := by
  cases t with
  | bool =>
    obtain ⟨b, rfl⟩ := List.length_eq_one_iff.mp h
    have hb : (b != 0) = (bytesWord [b] != 0) := by
      rw [Bool.eq_iff_iff]
      simp [bytesWord, ← UInt8.toNat_inj]
    exact congrArg (fun x => Tagged.mk .bool (.bool x)) hb
  | int t =>
    have hc : t.contains (t.ofWord (bytesWord bytes)) = true := wellFormed_decodeElement h
    unfold Tagged.decode
    dsimp only
    rw [Value.ofInt_tagged, Value.ofInt, if_pos hc]
    rfl
  | float t => rfl

/-- A well-formed value is encoded alike whatever the default. -/
theorem encodeElement_tagged {v : Value} (hv : v.WellFormed) (default : Int) (t : ScalarType) :
    v.tagged.encode default t = encodeElement t v := by
  have htype : v.tagged.type = v.type := by cases v <;> rfl
  have hnumber : v.tagged.payload.number = v.number := by
    cases v with
    | int s i => exact Payload.number_ofInt hv
    | _ => rfl
  unfold Tagged.encode encodeElement
  rw [htype, hnumber, Value.convert_tagged hv]
  split
  · rfl
  · cases hw : v.convert t with
    | error e => rfl
    | ok w =>
      obtain ⟨rfl, hwf⟩ := Value.made_convert hv hw
      refine congrArg Except.ok ?_
      cases w with
      | bool b => cases b <;> rfl
      | float s x => rfl
      | int s i =>
        change wordBytes (s.toWord ((Payload.ofInt s i).toInt?.getD default)) _ = _
        rw [Payload.toInt?_ofInt hwf]
        rfl

end Lockstep
