import Lockstep.Proofs.TensorCore.Product

/-!
# Duplicated factors

The second layout reads every entry of its factors from two lanes, and compares them when a
term is computed. Between them the sums take every entry of both factors, so no pair of lanes
that differ is left out; and a pair is compared as numbers, so that lanes which hold the same
NaN differ.
-/

namespace Lockstep

/-- A number is equal to itself; a NaN is not. -/
theorem Binary64.eq_self (x : Binary64) : x.eq x = !x.isNaN := by
  simp [Binary64.eq]

/-- A float that is a NaN. -/
def Value.isNaN : Value → Bool
  | float _ x => x.isNaN
  | _ => false

/-- Only a NaN differs from itself. -/
theorem Value.numericEq_self (v : Value) : v.numericEq v = !v.isNaN := by
  cases v with
  | bool b => exact beq_self_eq_true _
  | int t i => exact beq_self_eq_true i
  | float t x => exact x.eq_self

namespace TensorCore

variable {core : TensorCore} {a b c d x : List Lanes} {out : ScalarType} {n g i j k : Nat}
  {row col : Nat}

/-! ## What is compared -/

/-- The second half of the lanes of every group holds the very values of the first. -/
def Repeats (x : List Lanes) (n : Nat) : Prop :=
  ∀ g < n, ∀ i < rdna.factorElements, ∀ j < rdna.depth,
    entry x i (g * groupSize + j + 16) = entry x i (g * groupSize + j)

/-- The first half of the lanes of some group holds a NaN. -/
def HoldsNaN (x : List Lanes) (n : Nat) : Prop :=
  ∃ g < n, ∃ i < rdna.factorElements, ∃ j < rdna.depth,
    (entry x i (g * groupSize + j)).isNaN = true

theorem Repeats.duplicated_iff (h : Repeats x n) : Duplicated x n ↔ ¬ HoldsNaN x n := by
  constructor
  · rintro hdup ⟨g, hg, i, hi, j, hj, hnan⟩
    have heq := hdup g hg i hi j hj
    rw [h g hg i hi j hj, Value.numericEq_self, hnan] at heq
    cases heq
  · intro hnone g hg i hi j hj
    rw [h g hg i hi j hj, Value.numericEq_self, Bool.not_eq_true']
    by_contra hnan
    exact hnone ⟨g, hg, i, hi, j, hj, eq_true_of_ne_false hnan⟩

/-- The fault names an element and two lanes of a group that should hold the same number
and do not. -/
def Names (x : List Lanes) (n : Nat) (f : Fault) : Prop :=
  ∃ g < n, ∃ i < rdna.factorElements, ∃ j < rdna.depth,
    (entry x i (g * groupSize + j)).numericEq (entry x i (g * groupSize + j + 16)) = false ∧
      f = .invalidOperands .wmma (.notDuplicated i
        (g * groupSize + j) (entry x i (g * groupSize + j))
        (g * groupSize + j + 16) (entry x i (g * groupSize + j + 16)))

theorem rdnaFactor_isOk_iff : (∃ v, rdnaFactor x i j (g * groupSize) = .ok v) ↔
    (entry x i (g * groupSize + j)).numericEq (entry x i (g * groupSize + j + 16)) = true := by
  unfold rdnaFactor
  dsimp only
  split
  next heq => exact iff_of_true ⟨_, rfl⟩ heq
  next heq => simp [heq]

theorem rdnaFactor_names (hg : g < n) (hi : i < rdna.factorElements) (hj : j < rdna.depth) :
    Raises (rdnaFactor x i j (g * groupSize)) (Names x n) := by
  unfold rdnaFactor
  dsimp only
  split
  next heq => exact .ok _
  next heq => exact .error ⟨g, hg, i, hi, j, hj, Bool.eq_false_iff.mpr heq, rfl⟩

/-! ## What the sums take -/

/-- All terms of a sum that is computed have been taken from the factors. -/
theorem factors_of_cell {base lane element : Nat} {v : Value}
    (h : core.cell a b c out base lane element = .ok v) (hk : k < core.depth) :
    (∃ x, core.first a k (core.position lane element).2 base = .ok x) ∧
      ∃ y, core.second b (core.position lane element).1 k base = .ok y := by
  unfold cell at h
  obtain ⟨sum, hsum, -⟩ := bind_eq_ok.mp h
  obtain ⟨s, s', hterm⟩ := ok_of_foldlM hsum (List.mem_range.mpr hk)
  obtain ⟨x, hx, hterm⟩ := bind_eq_ok.mp hterm
  obtain ⟨y, hy, -⟩ := bind_eq_ok.mp hterm
  exact ⟨⟨x, hx⟩, y, hy⟩

/-- Every place of the matrix has its sum, so every entry of both factors is taken. -/
theorem factors_of_cells {rows : List (List Value)}
    (h : core.cells a b c out (n * groupSize) = .ok rows) (hg : g < n) (hrow : row < core.depth)
    (hcol : col < core.depth) (hk : k < core.depth) :
    (∃ x, core.first a k col (g * groupSize) = .ok x) ∧
      ∃ y, core.second b row k (g * groupSize) = .ok y := by
  obtain ⟨he, hlane⟩ := slot_lt hrow hcol
  have hlt : g * groupSize + (core.slot row col).2 < n * groupSize := by
    simp only [groupSize] at *
    omega
  have hbase : (g * groupSize + (core.slot row col).2) / groupSize * groupSize =
      g * groupSize := by
    simp only [groupSize] at *
    omega
  have hmod : (g * groupSize + (core.slot row col).2) % groupSize = (core.slot row col).2 := by
    simp only [groupSize] at *
    omega
  obtain ⟨r, -, hcells⟩ := ok_of_mapM h (List.mem_range.mpr hlt)
  obtain ⟨v, -, hcell⟩ := ok_of_mapM hcells (List.mem_range.mpr he)
  rw [hbase, hmod] at hcell
  have hfactors := factors_of_cell hcell hk
  rwa [position_slot hrow hcol] at hfactors

/-- The entry `(i, j)` of the first factor is a term of the sums in column `j`, that of the
second one of the sums in row `j`. -/
theorem duplicated_of_cells {rows : List (List Value)}
    (h : rdna.cells a b c out (n * groupSize) = .ok rows) : Duplicated a n ∧ Duplicated b n := by
  have hzero : 0 < rdna.depth := by decide
  constructor
  · intro g hg i hi j hj
    exact rdnaFactor_isOk_iff.mp (factors_of_cells h hg hzero hj hi).1
  · intro g hg i hi j hj
    exact rdnaFactor_isOk_iff.mp (factors_of_cells h hg hj hzero hi).2

theorem addTerm_names {sum : Binary64} (hg : g < n) (hrow : row < rdna.depth)
    (hcol : col < rdna.depth) (hk : k < rdna.depth) :
    Raises (rdna.addTerm a b row col (g * groupSize) sum k)
      fun f => Names a n f ∨ Names b n f := by
  apply Raises.bind
  · exact (rdnaFactor_names hg hk hcol).mono fun f hf => .inl hf
  intro x _
  apply Raises.bind
  · exact (rdnaFactor_names hg hk hrow).mono fun f hf => .inr hf
  intro y _
  exact .ok _

/-- A sum of doubles is converted to a double, so that only the factors can be at fault. -/
theorem cells_names :
    Raises (rdna.cells a b c (.float .float64) (n * groupSize))
      fun f => Names a n f ∨ Names b n f := by
  apply Raises.mapM
  intro l hl
  apply Raises.mapM
  intro e he
  have hg : l / groupSize < n :=
    Nat.div_lt_of_lt_mul (Nat.mul_comm n _ ▸ List.mem_range.mp hl)
  have hlane : l % groupSize < groupSize := Nat.mod_lt _ (by decide)
  obtain ⟨hrow, hcol⟩ := position_lt hlane (List.mem_range.mp he)
  apply Raises.bind
  · apply Raises.foldlM
    intro sum k hk
    exact addTerm_names hg hrow hcol (List.mem_range.mp hk)
  intro sum _
  rw [Value.ofFloat_double]
  exact .ok _

/-! ## What is accepted -/

section

variable (hn : 0 < n) (ha : Shaped a rdna.factorElements (n * groupSize))
  (hb : Shaped b rdna.factorElements (n * groupSize))
  (hc : Shaped c rdna.sumElements (n * groupSize))
include hn ha hb hc

theorem execute_of_duplicated (hdupA : Duplicated a n) (hdupB : Duplicated b n) :
    ∃ d, rdna.execute a b c (.float .float64) = .ok d ∧
      Shaped d rdna.sumElements (n * groupSize) := by
  have hconverts : rdna.Converts n a b c (.float .float64) :=
    fun g _ row _ col _ => ⟨_, Value.ofFloat_double _⟩
  obtain ⟨d, hd, hshaped, -⟩ := execute_ok (fun _ => ⟨hdupA, hdupB⟩) hconverts hn ha hb hc
  exact ⟨d, hd, hshaped⟩

theorem duplicated_of_execute (h : rdna.execute a b c out = .ok d) :
    Duplicated a n ∧ Duplicated b n := by
  rw [execute_eq_cells hn ha hb hc] at h
  obtain ⟨rows, hrows, -⟩ := map_eq_ok.mp h
  exact duplicated_of_cells hrows

theorem execute_names :
    Raises (rdna.execute a b c (.float .float64)) fun f => Names a n f ∨ Names b n f := by
  rw [execute_eq_cells hn ha hb hc]
  exact cells_names.map

end

/-- Factors are accepted when they are duplicated, and a fault names two lanes of one of them
that differ. -/
structure Checked (n : Nat) (a b : List Lanes) (result : Except Fault (List Lanes)) : Prop where
  accepted : Duplicated a n → Duplicated b n →
    ∃ d, result = .ok d ∧ Shaped d rdna.sumElements (n * groupSize)
  refused : ¬ (Duplicated a n ∧ Duplicated b n) →
    ∃ f, result = .error f ∧ (Names a n f ∨ Names b n f)
  /-- of lanes that repeat the very same values, those with a NaN are refused -/
  repeated : Repeats a n → Repeats b n →
    ((∃ d, result = .ok d) ↔ ¬ HoldsNaN a n ∧ ¬ HoldsNaN b n)

/-- With doubles as results, the second layout accepts just the factors whose second half of
the lanes holds the numbers of the first, in every group. The very same values are accepted
but for a NaN. -/
theorem execute_checked (hn : 0 < n) (ha : Shaped a rdna.factorElements (n * groupSize))
    (hb : Shaped b rdna.factorElements (n * groupSize))
    (hc : Shaped c rdna.sumElements (n * groupSize)) :
    Checked n a b (rdna.execute a b c (.float .float64)) := by
  refine ⟨execute_of_duplicated hn ha hb hc, ?_, ?_⟩
  · intro hdiffer
    cases hresult : rdna.execute a b c (.float .float64) with
    | ok d => exact absurd (duplicated_of_execute hn ha hb hc hresult) hdiffer
    | error f => exact ⟨f, rfl, execute_names hn ha hb hc f hresult⟩
  · intro hrepA hrepB
    rw [← hrepA.duplicated_iff, ← hrepB.duplicated_iff]
    constructor
    · rintro ⟨d, hd⟩
      exact duplicated_of_execute hn ha hb hc hd
    · rintro ⟨hdupA, hdupB⟩
      obtain ⟨d, hd, -⟩ := execute_of_duplicated hn ha hb hc hdupA hdupB
      exact ⟨d, hd⟩

/-- One group of lanes with the same double everywhere but in element 0 of lanes 0 and 16,
which hold another. -/
def paired (elements : Nat) (x y : Binary64) : List Lanes :=
  (List.range elements).map fun e => (List.range groupSize).map fun l =>
    .float .float64 (if e = 0 ∧ l % 16 = 0 then y else x)

theorem shaped_paired (elements : Nat) (x y : Binary64) :
    Shaped (paired elements x y) elements (1 * groupSize) := by
  refine ⟨by simp [paired], ?_⟩
  intro l hl
  obtain ⟨e, -, rfl⟩ := List.mem_map.mp hl
  simp

theorem execute_checked_paired :
    Checked 1 (paired 16 .zero .one) (paired 16 .one .undefined)
      (rdna.execute (paired 16 .zero .one) (paired 16 .one .undefined) (paired 8 .zero .zero)
        (.float .float64)) :=
  execute_checked Nat.one_pos (shaped_paired _ _ _) (shaped_paired _ _ _) (shaped_paired _ _ _)

/-- The same NaN on both lanes is refused. -/
theorem repeated_nan_refused :
    Shaped (paired 16 .zero .undefined) 16 32 ∧ Shaped (paired 16 .zero .zero) 16 32 ∧
      Shaped (paired 8 .zero .zero) 8 32 ∧
      Repeats (paired 16 .zero .undefined) 1 ∧ Repeats (paired 16 .zero .zero) 1 ∧
      rdna.execute (paired 16 .zero .undefined) (paired 16 .zero .zero) (paired 8 .zero .zero)
        (.float .float64) = .error (.invalidOperands .wmma (.notDuplicated
          0 0 (.float .float64 .undefined) 16 (.float .float64 .undefined))) := by
  refine ⟨shaped_paired _ _ _, shaped_paired _ _ _, shaped_paired _ _ _, ?_, ?_, ?_⟩
  · unfold Repeats
    decide +kernel
  · unfold Repeats
    decide +kernel
  · decide +kernel

end TensorCore

end Lockstep
