import Lockstep.Proofs.Step.Blame
import Lockstep.Proofs.Step.Compute
import Lockstep.Proofs.TensorCore.Layout
import Lockstep.Proofs.Value.Family

/-!
# Matrix multiplication on lanes

On every group of lanes, whatever the layout, the tensor core adds to the sum the
product of the factors. Addition and multiplication of floats are left as they
are; only the order of the terms matters.
-/

namespace Lockstep

namespace TensorCore

variable {core : TensorCore} {a b c d x : List Lanes} {out : ScalarType} {n g i j : Nat}

/-! ## Entries of the factors -/

/-- Entry `(i, j)` of the first factor of a group. -/
def left (core : TensorCore) (x : List Lanes) (g i j : Nat) : Value :=
  match core with
  | metal => metalFactor x i j (g * groupSize)
  | rdna => entry x i (g * groupSize + j)

/-- Entry `(i, j)` of the second factor of a group. -/
def right (core : TensorCore) (x : List Lanes) (g i j : Nat) : Value :=
  match core with
  | metal => metalFactor x i j (g * groupSize)
  | rdna => entry x j (g * groupSize + i)

/-- In every group the second half of the lanes holds the numbers that the first half
holds. A NaN is no number. -/
def Duplicated (x : List Lanes) (n : Nat) : Prop :=
  ∀ g < n, ∀ i < rdna.factorElements, ∀ j < rdna.depth,
    (entry x i (g * groupSize + j)).numericEq (entry x i (g * groupSize + j + 16)) = true

theorem Duplicated.group (h : Duplicated x n) (hg : g < n) : Duplicated (group x g) 1 := by
  intro g' hg' i hi j hj
  obtain rfl : g' = 0 := by omega
  have hj : j < 16 := hj
  rw [Nat.zero_mul, Nat.zero_add, entry_group (by simp only [groupSize]; omega),
    entry_group (by simp only [groupSize]; omega), ← Nat.add_assoc]
  exact h g hg i hi j hj

theorem first_eq_ok (hdup : core = .rdna → Duplicated x n) (hg : g < n) (hi : i < core.depth)
    (hj : j < core.depth) : core.first x i j (g * groupSize) = .ok (core.left x g i j) := by
  cases core with
  | metal => rfl
  | rdna =>
    unfold first rdnaFactor
    dsimp only
    rw [if_pos (hdup rfl g hg i hi j hj)]
    rfl

theorem second_eq_ok (hdup : core = .rdna → Duplicated x n) (hg : g < n) (hi : i < core.depth)
    (hj : j < core.depth) : core.second x i j (g * groupSize) = .ok (core.right x g i j) := by
  cases core with
  | metal => rfl
  | rdna =>
    unfold second rdnaFactor
    dsimp only
    rw [if_pos (hdup rfl g hg j hj i hi)]
    rfl

theorem left_group (hi : i < core.depth) (hj : j < core.depth) :
    core.left (group x g) 0 i j = core.left x g i j := by
  cases core with
  | metal =>
    simp only [left, metalFactor_eq_tile]
    exact tile_group hi hj
  | rdna =>
    have hj : j < 16 := hj
    simp only [left, Nat.zero_mul, Nat.zero_add]
    exact entry_group (by simp only [groupSize]; omega)

theorem right_group (hi : i < core.depth) (hj : j < core.depth) :
    core.right (group x g) 0 i j = core.right x g i j := by
  cases core with
  | metal =>
    simp only [right, metalFactor_eq_tile]
    exact tile_group hi hj
  | rdna =>
    have hi : i < 16 := hi
    simp only [right, Nat.zero_mul, Nat.zero_add]
    exact entry_group (by simp only [groupSize]; omega)

/-! ## One entry of the result -/

/-- Entry `(row, col)` of the sum with the terms of the product added one by one. -/
def total (core : TensorCore) (a b c : List Lanes) (g row col : Nat) : Binary64 :=
  (List.range core.depth).foldl
    (fun sum k => sum.add ((core.left a g k col).toFloat.mul (core.right b g row k).toFloat))
    (core.tile c g row col).toFloat

theorem total_group {row col : Nat} (hrow : row < core.depth) (hcol : col < core.depth) :
    core.total (group a g) (group b g) (group c g) 0 row col = core.total a b c g row col := by
  unfold total
  rw [tile_group hrow hcol]
  refine List.foldl_ext _ _ _ fun sum k hk => ?_
  have hk := List.mem_range.mp hk
  rw [left_group hk hcol, right_group hrow hk]

theorem cell_eq_ok {lane element : Nat} {v : Value}
    (hdup : core = .rdna → Duplicated a n ∧ Duplicated b n) (hg : g < n) (hl : lane < groupSize)
    (he : element < core.sumElements)
    (hv : Value.ofFloat (core.total a b c g (core.position lane element).1
      (core.position lane element).2) out = .ok v) :
    core.cell a b c out (g * groupSize) lane element = .ok v := by
  have hposition := position_lt hl he
  have hstart := tile_position (x := c) (g := g) hl he
  unfold cell
  generalize core.position lane element = position at hposition hstart hv ⊢
  obtain ⟨row, col⟩ := position
  have hterm (sum : Binary64) (k : Nat) (hk : k ∈ List.range core.depth) :
      core.addTerm a b row col (g * groupSize) sum k =
        .ok (sum.add ((core.left a g k col).toFloat.mul (core.right b g row k).toFloat)) := by
    have hk := List.mem_range.mp hk
    unfold addTerm
    rw [first_eq_ok (fun h => (hdup h).1) hg hk hposition.2,
      second_eq_ok (fun h => (hdup h).2) hg hposition.1 hk]
    rfl
  dsimp only
  rw [foldlM_ok hterm, ← hstart]
  exact mapError_eq_ok.mpr hv

/-! ## The result -/

/-- The sums of all groups can be converted to the type of the result. -/
def Converts (core : TensorCore) (n : Nat) (a b c : List Lanes) (out : ScalarType) : Prop :=
  ∀ g < n, ∀ row < core.depth, ∀ col < core.depth,
    ∃ v, Value.ofFloat (core.total a b c g row col) out = .ok v

/-- On factors and sums of the right shape all that is left is to compute the cells. -/
theorem execute_eq_cells (hn : 0 < n)
    (ha : Shaped a core.factorElements (n * groupSize))
    (hb : Shaped b core.factorElements (n * groupSize))
    (hc : Shaped c core.sumElements (n * groupSize)) :
    core.execute a b c out = (core.cells a b c out (n * groupSize)).map fun rows =>
      (List.range core.sumElements).map fun e => rows.map fun r => r.getD e (.bool false) := by
  have hlanes : leadingCount c = n * groupSize := by
    have hpos : 0 < core.sumElements := by cases core <;> decide
    refine leadingCount_eq ?_ hc.lanes
    rintro rfl
    exact absurd hc.elements (Nat.ne_of_lt hpos)
  have hgroups : ¬ (n * groupSize = 0 ∨ n * groupSize % groupSize ≠ 0) := by
    simp only [groupSize]
    omega
  rw [execute_eq, hlanes, checkMatrix_eq_ok.mpr ha, checkMatrix_eq_ok.mpr hb,
    checkMatrix_eq_ok.mpr hc]
  change (if _ then _ else _) = _
  rw [if_neg hgroups]
  rfl

theorem execute_of_shaped {rows : List (List Value)} (hn : 0 < n)
    (ha : Shaped a core.factorElements (n * groupSize))
    (hb : Shaped b core.factorElements (n * groupSize))
    (hc : Shaped c core.sumElements (n * groupSize))
    (hrows : core.cells a b c out (n * groupSize) = .ok rows) :
    core.execute a b c out =
      .ok ((List.range core.sumElements).map fun e => rows.map fun r => r.getD e (.bool false)) := by
  rw [execute_eq_cells hn ha hb hc, hrows]
  rfl

section

variable (hdup : core = .rdna → Duplicated a n ∧ Duplicated b n)
  (hout : core.Converts n a b c out)
include hdup hout

theorem cells_ok : ∃ rows, core.cells a b c out (n * groupSize) = .ok rows := by
  refine mapM_ok_of_forall fun l hl => mapM_ok_of_forall fun e he => ?_
  have hl : l < n * groupSize := List.mem_range.mp hl
  have he := List.mem_range.mp he
  have hg : l / groupSize < n := Nat.div_lt_of_lt_mul (Nat.mul_comm n _ ▸ hl)
  have hlane : l % groupSize < groupSize := Nat.mod_lt _ (by decide)
  have hposition := position_lt hlane he
  obtain ⟨v, hv⟩ := hout _ hg _ hposition.1 _ hposition.2
  exact ⟨v, cell_eq_ok hdup hg hlane he hv⟩

/-- What a lane of a group has computed is converted from the sum at its position. -/
theorem entry_of_cells {rows : List (List Value)} {lane element : Nat}
    (hrows : core.cells a b c out (n * groupSize) = .ok rows) (hg : g < n)
    (hl : lane < groupSize) (he : element < core.sumElements) :
    ∃ r v, rows[g * groupSize + lane]? = some r ∧ r[element]? = some v ∧
      Value.ofFloat (core.total a b c g (core.position lane element).1
        (core.position lane element).2) out = .ok v := by
  have hlt : g * groupSize + lane < n * groupSize := by
    simp only [groupSize] at *
    omega
  have hdiv : (g * groupSize + lane) / groupSize = g := by
    simp only [groupSize] at *
    omega
  have hmod : (g * groupSize + lane) % groupSize = lane := by
    simp only [groupSize] at *
    omega
  obtain ⟨r, hr, hcells⟩ := getElem?_of_mapM hrows (List.getElem?_range hlt)
  obtain ⟨v, hv, hcell⟩ := getElem?_of_mapM hcells (List.getElem?_range he)
  rw [hdiv, hmod] at hcell
  have hposition := position_lt hl he
  obtain ⟨v', hv'⟩ := hout _ hg _ hposition.1 _ hposition.2
  cases hcell.symm.trans (cell_eq_ok hdup hg hl he hv')
  exact ⟨r, v, hr, hv, hv'⟩

/-- Entry for entry the result is the sum plus the product, in the type asked for. -/
theorem execute_ok (hn : 0 < n) (ha : Shaped a core.factorElements (n * groupSize))
    (hb : Shaped b core.factorElements (n * groupSize))
    (hc : Shaped c core.sumElements (n * groupSize)) :
    ∃ d, core.execute a b c out = .ok d ∧ Shaped d core.sumElements (n * groupSize) ∧
      ∀ g < n, ∀ row < core.depth, ∀ col < core.depth,
        Value.ofFloat (core.total a b c g row col) out = .ok (core.tile d g row col) := by
  obtain ⟨rows, hrows⟩ := cells_ok hdup hout
  have hlen : rows.length = n * groupSize := by simpa using length_of_mapM hrows
  refine ⟨_, execute_of_shaped hn ha hb hc hrows, ⟨by simp, ?_⟩, ?_⟩
  · intro l hl
    obtain ⟨e, -, rfl⟩ := List.mem_map.mp hl
    rw [List.length_map, hlen]
  · intro g hg row hrow col hcol
    obtain ⟨he, hlane⟩ := slot_lt hrow hcol
    obtain ⟨r, v, hr, hv, htotal⟩ := entry_of_cells hdup hout hrows hg hlane he
    rw [position_slot hrow hcol] at htotal
    rw [htotal]
    simp [tile, entry, he, hr, hv]

/-- On one group the result is that group of the whole result. -/
theorem execute_group (ha : Shaped a core.factorElements (n * groupSize))
    (hb : Shaped b core.factorElements (n * groupSize))
    (hc : Shaped c core.sumElements (n * groupSize))
    (hd : Shaped d core.sumElements (n * groupSize))
    (hentries : ∀ g < n, ∀ row < core.depth, ∀ col < core.depth,
      Value.ofFloat (core.total a b c g row col) out = .ok (core.tile d g row col)) (hg : g < n) :
    core.execute (group a g) (group b g) (group c g) out = .ok (group d g) := by
  have hdup' : core = .rdna → Duplicated (group a g) 1 ∧ Duplicated (group b g) 1 :=
    fun h => ⟨(hdup h).1.group hg, (hdup h).2.group hg⟩
  have hout' : core.Converts 1 (group a g) (group b g) (group c g) out := by
    intro g' hg' row hrow col hcol
    obtain rfl : g' = 0 := by omega
    rw [total_group hrow hcol]
    exact hout g hg row hrow col hcol
  obtain ⟨d', hd', hshaped, htotal⟩ := execute_ok hdup' hout' Nat.one_pos
    (by rw [Nat.one_mul]; exact ha.group hg) (by rw [Nat.one_mul]; exact hb.group hg)
    (by rw [Nat.one_mul]; exact hc.group hg)
  rw [Nat.one_mul] at hshaped
  rw [hd', hshaped.ext_tile (hd.group hg)]
  intro row hrow col hcol
  have hv := htotal 0 Nat.one_pos row hrow col hcol
  rw [total_group hrow hcol, hentries g hg row hrow col hcol] at hv
  rw [tile_group hrow hcol]
  exact (Except.ok.inj hv).symm

end

/-- `d` is, group by group, the sum `c` plus the product of `a` and `b`, in the type
asked for. -/
structure IsProduct (core : TensorCore) (n : Nat) (a b c d : List Lanes) (out : ScalarType) :
    Prop where
  shaped : Shaped d core.sumElements (n * groupSize)
  entries : ∀ g < n, ∀ row < core.depth, ∀ col < core.depth,
    Value.ofFloat (core.total a b c g row col) out = .ok (core.tile d g row col)
  /-- the results on the single groups, side by side -/
  groups : ∃ ds, (List.range n).mapM
    (fun g => core.execute (group a g) (group b g) (group c g) out) = .ok ds ∧
      d = join core.sumElements ds

/-- The first layout puts its factors where it puts the sum. -/
theorem left_eq_tile (hcore : core = .metal) (x : List Lanes) (g i j : Nat) :
    core.left x g i j = core.tile x g i j ∧ core.right x g i j = core.tile x g i j := by
  subst hcore
  exact ⟨metalFactor_eq_tile x g i j, metalFactor_eq_tile x g i j⟩

/-- On any number of groups a tensor core adds to the sum the product of the factors
and fills every place of the result with one entry of it. The factors of the first layout
are where its sum is. Those of the second have to be duplicated, and all sums have to fit
the type of the result. -/
theorem execute_product (hn : 0 < n) (ha : Shaped a core.factorElements (n * groupSize))
    (hb : Shaped b core.factorElements (n * groupSize))
    (hc : Shaped c core.sumElements (n * groupSize))
    (hdup : core = .rdna → Duplicated a n ∧ Duplicated b n) (hout : core.Converts n a b c out) :
    core.HoldsOnce n ∧
    (core = .metal → ∀ x g i j,
      core.left x g i j = core.tile x g i j ∧ core.right x g i j = core.tile x g i j) ∧
    ∃ d, core.execute a b c out = .ok d ∧ core.IsProduct n a b c d out := by
  obtain ⟨d, hd, hshaped, hentries⟩ := execute_ok hdup hout hn ha hb hc
  refine ⟨core.holdsOnce n, left_eq_tile, d, hd, hshaped, hentries,
    (List.range n).map (group d), ?_, (join_group hshaped).symm⟩
  rw [mapM_eq_ok, List.forall₂_map_right_iff, List.forall₂_same]
  intro g hg
  exact execute_group hdup hout ha hb hc hshaped hentries (List.mem_range.mp hg)

/-- Two groups of lanes with a one in each element. -/
def ones (elements : Nat) : List Lanes :=
  List.replicate elements (List.replicate 64 (.int .int32 1))

/-- Two groups of lanes with the number of the lane in each element. -/
def numbered (elements : Nat) : List Lanes :=
  List.replicate elements ((List.range 64).map fun l => .int .int32 l)

theorem shaped_ones (elements : Nat) : Shaped (ones elements) elements (2 * groupSize) := by
  refine ⟨List.length_replicate, fun l hl => ?_⟩
  rw [List.eq_of_mem_replicate hl]
  rfl

theorem shaped_numbered (elements : Nat) : Shaped (numbered elements) elements (2 * groupSize) := by
  refine ⟨List.length_replicate, fun l hl => ?_⟩
  rw [List.eq_of_mem_replicate hl]
  rfl

/-- Both layouts. The factors of the first need not be duplicated. -/
theorem execute_product_ones :
    (∃ d, rdna.execute (ones 16) (ones 16) (numbered 8) (.float .float64) = .ok d ∧
      rdna.IsProduct 2 (ones 16) (ones 16) (numbered 8) d (.float .float64)) ∧
    ∃ d, metal.execute (numbered 2) (ones 2) (numbered 2) (.float .float64) = .ok d ∧
      metal.IsProduct 2 (numbered 2) (ones 2) (numbered 2) d (.float .float64) := by
  constructor
  · have ha : Shaped (ones 16) rdna.factorElements (2 * groupSize) := shaped_ones 16
    have hc : Shaped (numbered 8) rdna.sumElements (2 * groupSize) := shaped_numbered 8
    have hdup : Duplicated (ones 16) 2 := by
      unfold Duplicated
      decide +kernel
    exact (execute_product Nat.two_pos ha ha hc (fun _ => ⟨hdup, hdup⟩)
      fun g _ row _ col _ => ⟨_, Value.ofFloat_double _⟩).2.2
  · have ha : Shaped (numbered 2) metal.factorElements (2 * groupSize) := shaped_numbered 2
    have hb : Shaped (ones 2) metal.factorElements (2 * groupSize) := shaped_ones 2
    exact (execute_product Nat.two_pos ha hb ha (fun h => by cases h)
      fun g _ row _ col _ => ⟨_, Value.ofFloat_double _⟩).2.2

end TensorCore

end Lockstep
