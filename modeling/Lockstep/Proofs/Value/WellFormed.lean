import Lockstep.Alu.Execute
import Lockstep.Buffer.Basic
import Lockstep.Literal
import Lockstep.Memory.Access
import Lockstep.Proofs.Alu.Range
import Lockstep.Proofs.Outcome
import Lockstep.TensorCore
import Mathlib.Algebra.Group.Nat.Defs

/-!
# Well-formed values

Everything that gives a value gives a well-formed one: conversions, literals, the
bytes of buffers, operations, loads and tensor cores.
-/

namespace Lockstep

namespace Value

/-- What `WellFormed` says of an integer. -/
theorem wellFormed_int {t : IntType} {i : Int} :
    (int t i).WellFormed ↔ t.min ≤ i ∧ i ≤ t.max :=
  IntType.contains_iff

theorem wellFormed_zero (t : ScalarType) : (zero t).WellFormed := by
  cases t with
  | int t => exact t.contains_zero
  | _ => trivial

/-! ## Conversions -/

variable {v w : Value} {t : ScalarType} {i : Int} {x : Binary64}

theorem made_ofFloatChecked {t : FloatType} (h : ofFloatChecked t x = .ok v) :
    v.type = .float t ∧ v.WellFormed := by
  unfold ofFloatChecked at h
  split at h
  · cases h
  · cases h
    exact ⟨rfl, trivial⟩

theorem made_ofInt (h : ofInt i t = .ok v) : v.type = t ∧ v.WellFormed := by
  unfold ofInt at h
  split at h
  · split at h
    · cases h
      exact ⟨rfl, trivial⟩
    · split at h
      · cases h
        exact ⟨rfl, trivial⟩
      · cases h
  · split at h
    · cases h
      exact ⟨rfl, ‹_›⟩
    · cases h
  · exact made_ofFloatChecked h

theorem made_ofFloat (h : ofFloat x t = .ok v) : v.type = t ∧ v.WellFormed := by
  unfold ofFloat at h
  split at h
  · split at h
    · cases h
      exact ⟨rfl, trivial⟩
    · split at h
      · cases h
        exact ⟨rfl, trivial⟩
      · cases h
  · split at h
    · exact made_ofInt h
    · cases h
  · exact made_ofFloatChecked h

theorem made_ofNumber {n : Number} (h : ofNumber n t = .ok v) : v.type = t ∧ v.WellFormed := by
  cases n with
  | truth b => exact made_ofInt h
  | whole i => exact made_ofInt h
  | real x => exact made_ofFloat h

/-- A conversion gives a value of the type asked for, well formed if it is not
the value that was there before. -/
theorem made_convert (hv : v.WellFormed) (h : v.convert t = .ok w) :
    w.type = t ∧ w.WellFormed := by
  unfold convert at h
  split at h
  · cases h
    exact ⟨‹_›, hv⟩
  · exact made_ofNumber h

theorem made_toValue {l : Literal} (h : l.toValue t = .ok v) : v.type = t ∧ v.WellFormed :=
  made_ofNumber h

end Value

/-! ## Elements of buffers -/

theorem bytesWord_lt (bytes : List UInt8) : bytesWord bytes < 256 ^ bytes.length := by
  induction bytes with
  | nil => decide
  | cons b r ih =>
    have hb : b.toNat < 256 := b.toNat_lt
    rw [bytesWord, List.length_cons, Nat.pow_succ]
    omega

/-- A word of the width of a type is the word of one of its integers. -/
theorem IntType.contains_ofWord {t : IntType} {w : Nat} (h : w < 256 ^ t.size) :
    t.contains (t.ofWord w) = true := by
  rw [contains_iff]
  unfold ofWord
  cases hs : t.isSigned with
  | true =>
    have hlow : -((2 ^ t.bits : Nat) / 2 : Int) ≤ (w : Int).bmod (2 ^ t.bits) :=
      Int.le_bmod (Nat.two_pow_pos _)
    have hhigh : (w : Int).bmod (2 ^ t.bits) < ((2 ^ t.bits : Nat) + 1 : Int) / 2 :=
      Int.bmod_lt (Nat.two_pow_pos _)
    cases t <;> simp [isSigned] at hs <;>
      simp [min, max, isSigned, bits, size] at hlow hhigh ⊢ <;> omega
  | false =>
    cases t <;> simp [isSigned] at hs <;> simp [min, max, isSigned, bits, size] at h ⊢ <;> omega

theorem wellFormed_decodeElement {t : ScalarType} {bytes : List UInt8}
    (h : bytes.length = t.size) : (decodeElement t bytes).WellFormed := by
  cases t with
  | int t =>
    have hword := bytesWord_lt bytes
    rw [h] at hword
    exact IntType.contains_ofWord hword
  | _ => trivial

/-- Any bytes read as elements of any type are well formed. -/
theorem Buffer.wellFormed_readAs? {b : Buffer} {t : ScalarType} {i : Nat} {v : Value}
    (h : b.readAs? t i = some v) : v.WellFormed := by
  unfold readAs? at h
  split at h
  · rename_i hfits
    cases h
    refine wellFormed_decodeElement ?_
    unfold size at hfits
    simp
    omega
  · cases h

/-! ## Operations -/

theorem Alu.wellFormed_attempt {n : Number} {t : ScalarType} {v : Value}
    (h : attempt n t = .ok v) : v.WellFormed := by
  unfold attempt at h
  split at h
  · cases h
    trivial
  · exact (Value.made_ofNumber h).2

theorem Alu.wellFormed_execute {op : AluOp} {declared : ScalarType} {operands : List Value}
    {v : Value} (h : execute op declared operands = .ok v) : v.WellFormed := by
  obtain ⟨⟨t, n⟩, -, h⟩ := bind_eq_ok.mp h
  dsimp only at h
  unfold represent at h
  split at h
  · cases h
    exact wellFormed_attempt ‹_›
  · cases h
  · split at h
    · cases h
      exact wellFormed_attempt ‹_›
    · cases h
    · cases h

/-! ## Loads -/

namespace Memory

variable {m : Memory} {views : List View} {lanes : Lanes} {v : Value}

theorem wellFormed_read {view : View} {i : Int} (h : m.read view i = .ok v) : v.WellFormed := by
  obtain ⟨b, -, h⟩ := bind_eq_ok.mp h
  obtain ⟨n, -, h⟩ := bind_eq_ok.mp h
  split at h
  · cases h
    exact Buffer.wellFormed_readAs? ‹_›
  · cases h

theorem wellFormed_loadLane {view : View} {base : Value} {delta : Int}
    (h : m.loadLane view base delta = .ok v) : v.WellFormed := by
  obtain ⟨i, -, h⟩ := bind_eq_ok.mp h
  exact wellFormed_read h

theorem wellFormed_load {offsets : Lanes} {delta : Int}
    (h : m.load views offsets delta = .ok lanes) : ∀ x ∈ lanes, x.WellFormed := by
  intro x hx
  obtain ⟨_, -, hload⟩ := mem_of_mapM h hx
  exact wellFormed_loadLane hload

/-- A lane whose gate is false takes its default as it is. -/
theorem wellFormed_loadGated {offsets gate default : Lanes} {delta : Int}
    (hdefault : ∀ x ∈ default, x.WellFormed)
    (h : m.loadGated views offsets gate default delta = .ok lanes) :
    ∀ x ∈ lanes, x.WellFormed := by
  intro x hx
  obtain ⟨⟨vo, g, d⟩, hmem, hload⟩ := mem_of_mapM h hx
  dsimp only at hload
  split at hload
  · exact wellFormed_loadLane hload
  · cases hload
    exact hdefault _ (List.of_mem_zip (List.of_mem_zip hmem).2).2

theorem wellFormed_loadTexel {view : View} {height width : Nat} {x y : Value} {channel : Nat}
    (h : m.loadTexel view height width x y channel = .ok v) : v.WellFormed := by
  obtain ⟨i, -, h⟩ := bind_eq_ok.mp h
  obtain ⟨j, -, h⟩ := bind_eq_ok.mp h
  obtain ⟨place, -, h⟩ := bind_eq_ok.mp h
  split at h
  · exact wellFormed_read h
  · cases h
    exact Value.wellFormed_zero _

theorem wellFormed_loadImage {height width : Nat} {xs ys : Lanes} {es : List Lanes}
    (h : m.loadImage views height width xs ys = .ok es) :
    ∀ e ∈ es, ∀ x ∈ e, x.WellFormed := by
  intro e he x hx
  obtain ⟨c, -, hrow⟩ := mem_of_mapM h he
  obtain ⟨_, -, htexel⟩ := mem_of_mapM hrow hx
  exact wellFormed_loadTexel htexel

end Memory

/-! ## Tensor cores -/

theorem TensorCore.wellFormed_cell {core : TensorCore} {a b c : List Lanes} {out : ScalarType}
    {base lane element : Nat} {v : Value}
    (h : core.cell a b c out base lane element = .ok v) : v.WellFormed := by
  obtain ⟨sum, -, h⟩ := bind_eq_ok.mp h
  exact (Value.made_ofFloat (mapError_eq_ok.mp h)).2

theorem TensorCore.wellFormed_execute {core : TensorCore} {a b c es : List Lanes}
    {out : ScalarType} (h : core.execute a b c out = .ok es) : ∀ e ∈ es, ∀ x ∈ e, x.WellFormed := by
  unfold execute at h
  extract_lets lanes at h
  obtain ⟨-, -, h⟩ := bind_eq_ok.mp h
  obtain ⟨-, -, h⟩ := bind_eq_ok.mp h
  obtain ⟨-, -, h⟩ := bind_eq_ok.mp h
  split at h
  · cases h
  · obtain ⟨rows, hrows, h⟩ := bind_eq_ok.mp h
    cases h
    intro e he x hx
    obtain ⟨k, -, rfl⟩ := List.mem_map.mp he
    obtain ⟨row, hrow, rfl⟩ := List.mem_map.mp hx
    obtain ⟨l, -, hcells⟩ := mem_of_mapM hrows hrow
    rw [List.getD_eq_getElem?_getD]
    cases hget : row[k]? with
    | none => trivial
    | some y =>
      obtain ⟨_, -, hcell⟩ := mem_of_mapM hcells (List.mem_of_getElem? hget)
      exact wellFormed_cell hcell

end Lockstep
