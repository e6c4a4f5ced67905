import Lockstep.Proofs.Outcome
import Lockstep.TensorCore

/-!
# Matrices on lanes

A warp holds its matrices in groups of lanes. Within a group the layout of the sum
puts every entry of the matrix on one element of one lane, and no element of a lane
is without an entry.
-/

namespace Lockstep.TensorCore

/-- The matrix has its elements, on so many lanes. -/
structure Shaped (x : List Lanes) (elements lanes : Nat) : Prop where
  elements : x.length = elements
  lanes : ∀ l ∈ x, l.length = lanes

variable {core : TensorCore} {x y : List Lanes} {m n g : Nat}

theorem checkMatrix_eq_ok {matrix : Matrix} :
    checkMatrix matrix x m n = .ok () ↔ Shaped x m n := by
  unfold checkMatrix
  constructor
  · intro h
    split at h
    · cases h
    · rename_i hlen
      split at h
      · cases h
      · rename_i hany
        refine ⟨not_not.mp hlen, fun l hl => ?_⟩
        by_contra hne
        exact hany (List.any_eq_true.mpr ⟨l, hl, by simpa using hne⟩)
  · intro h
    rw [if_neg (not_not.mpr h.elements), if_neg]
    rw [List.any_eq_true]
    rintro ⟨l, hl, hne⟩
    exact bne_iff_ne.mp hne (h.lanes l hl)

theorem entry_eq_getElem {e l : Nat} (he : e < x.length) (hl : l < x[e].length) :
    entry x e l = x[e][l] := by
  simp [entry, he, hl]

/-- A matrix is what its elements hold on its lanes. -/
theorem Shaped.ext (hx : Shaped x m n) (hy : Shaped y m n)
    (h : ∀ e < m, ∀ l < n, entry x e l = entry y e l) : x = y := by
  refine List.ext_getElem (hx.elements.trans hy.elements.symm) fun e he he' => ?_
  have hlen := hx.lanes _ (List.getElem_mem he)
  have hlen' := hy.lanes _ (List.getElem_mem he')
  refine List.ext_getElem (hlen.trans hlen'.symm) fun l hl hl' => ?_
  have hentry := h e (hx.elements ▸ he) l (hlen ▸ hl)
  rwa [entry_eq_getElem he hl, entry_eq_getElem he' hl'] at hentry

/-! ## Groups of lanes -/

/-- What the lanes of a group hold. -/
def group (x : List Lanes) (g : Nat) : List Lanes :=
  x.map fun l => (l.drop (g * groupSize)).take groupSize

/-- Groups of lanes side by side. -/
def join (elements : Nat) (xs : List (List Lanes)) : List Lanes :=
  (List.range elements).map fun e => xs.flatMap fun x => x.getD e []

theorem Shaped.group (h : Shaped x m (n * groupSize)) (hg : g < n) :
    Shaped (group x g) m groupSize := by
  refine ⟨by rw [TensorCore.group, List.length_map, h.elements], fun l' hl' => ?_⟩
  obtain ⟨l, hl, rfl⟩ := List.mem_map.mp hl'
  have hlen := h.lanes l hl
  rw [List.length_take, List.length_drop, hlen]
  simp only [groupSize]
  omega

theorem entry_group {e lane : Nat} (hlane : lane < groupSize) :
    entry (group x g) e lane = entry x e (g * groupSize + lane) := by
  have hrow : (group x g).getD e [] = ((x.getD e []).drop (g * groupSize)).take groupSize := by
    unfold group
    rw [List.getD_eq_getElem?_getD, List.getD_eq_getElem?_getD, List.getElem?_map]
    cases x[e]? <;> simp
  unfold entry
  simp only [hrow, List.getD_eq_getElem?_getD, List.getElem?_take_of_lt hlane,
    List.getElem?_drop]

theorem flatMap_take_drop {α : Type} (k : Nat) (l : List α) (n : Nat) :
    ((List.range n).flatMap fun g => (l.drop (g * k)).take k) = l.take (n * k) := by
  induction n with
  | zero => simp
  | succ n ih =>
    rw [List.range_succ, List.flatMap_append, ih, List.flatMap_singleton, Nat.succ_mul,
      List.take_add]

/-- Its groups side by side make up a matrix. -/
theorem join_group (h : Shaped x m (n * groupSize)) :
    join m ((List.range n).map (group x)) = x := by
  refine List.ext_getElem (by simp [join, h.elements]) fun e he he' => ?_
  have hlen := h.lanes _ (List.getElem_mem he')
  simp only [join, List.getElem_map, List.getElem_range, List.flatMap_map]
  have hrow (g : Nat) : (group x g).getD e [] = (x[e].drop (g * groupSize)).take groupSize := by
    simp [group, he']
  simp only [hrow]
  rw [flatMap_take_drop, ← hlen, List.take_length]

/-! ## Entries of the sum -/

/-- The element and the lane of a group that hold an entry of the sum. -/
def slot (core : TensorCore) (row col : Nat) : Nat × Nat :=
  match core with
  | metal => (row % 2, row / 2 % 2 + col % 4 * 2 + row / 4 * 8 + col / 4 * 16)
  | rdna => (col / 2, row + col % 2 * 16)

/-- Entry `(row, col)` of the matrix that a group holds in the layout of the sum. -/
def tile (core : TensorCore) (x : List Lanes) (g row col : Nat) : Value :=
  entry x (core.slot row col).1 (g * groupSize + (core.slot row col).2)

variable {row col lane element : Nat}

/-- A lane of a group holds entries of the matrices only. -/
theorem position_lt (hl : lane < groupSize) (he : element < core.sumElements) :
    (core.position lane element).1 < core.depth ∧ (core.position lane element).2 < core.depth := by
  cases core with
  | metal =>
    simp only [groupSize, sumElements, position, depth] at *
    omega
  | rdna =>
    simp only [groupSize, sumElements, position, depth] at *
    omega

theorem slot_lt (hrow : row < core.depth) (hcol : col < core.depth) :
    (core.slot row col).1 < core.sumElements ∧ (core.slot row col).2 < groupSize := by
  cases core with
  | metal =>
    simp only [groupSize, sumElements, slot, depth] at *
    omega
  | rdna =>
    simp only [groupSize, sumElements, slot, depth] at *
    omega

theorem position_slot (hrow : row < core.depth) (hcol : col < core.depth) :
    core.position (core.slot row col).2 (core.slot row col).1 = (row, col) := by
  cases core with
  | metal =>
    simp only [position, slot, depth, Prod.mk.injEq] at *
    omega
  | rdna =>
    simp only [position, slot, depth, Prod.mk.injEq] at *
    omega

theorem slot_position (hl : lane < groupSize) (he : element < core.sumElements) :
    core.slot (core.position lane element).1 (core.position lane element).2 = (element, lane) := by
  cases core with
  | metal =>
    simp only [groupSize, sumElements, position, slot, Prod.mk.injEq] at *
    omega
  | rdna =>
    simp only [groupSize, sumElements, position, slot, Prod.mk.injEq] at *
    omega

/-- Where the sum holds an entry is where the factors of the first layout do. -/
theorem metalFactor_eq_tile (x : List Lanes) (g i j : Nat) :
    metalFactor x i j (g * groupSize) = metal.tile x g i j := by
  simp only [metalFactor, tile, slot, Nat.add_assoc]

theorem tile_position (hl : lane < groupSize) (he : element < core.sumElements) :
    core.tile x g (core.position lane element).1 (core.position lane element).2 =
      entry x element (g * groupSize + lane) := by
  rw [tile, slot_position hl he]

theorem tile_group (hrow : row < core.depth) (hcol : col < core.depth) :
    core.tile (group x g) 0 row col = core.tile x g row col := by
  rw [tile, tile, Nat.zero_mul, Nat.zero_add, entry_group (slot_lt hrow hcol).2]

/-- On one group a matrix is known by its entries. -/
theorem Shaped.ext_tile (hx : Shaped x core.sumElements groupSize)
    (hy : Shaped y core.sumElements groupSize)
    (h : ∀ row < core.depth, ∀ col < core.depth, core.tile x 0 row col = core.tile y 0 row col) :
    x = y := by
  refine hx.ext hy fun e he l hl => ?_
  obtain ⟨hrow, hcol⟩ := position_lt hl he
  have hentry := h _ hrow _ hcol
  rwa [tile_position hl he, tile_position hl he, Nat.zero_mul, Nat.zero_add] at hentry

/-- Each place of a matrix on `n` groups holds one entry of one group, and each entry
has one place. -/
structure HoldsOnce (core : TensorCore) (n : Nat) : Prop where
  /-- no other slot is at the position of an entry -/
  slots : ∀ row < core.depth, ∀ col < core.depth, ∀ s : Nat × Nat,
    s.1 < core.sumElements ∧ s.2 < groupSize ∧ core.position s.2 s.1 = (row, col) ↔
      s = core.slot row col
  /-- element `e` of lane `l` holds the entry `p.2` of the group `p.1` -/
  places : ∀ e < core.sumElements, ∀ l < n * groupSize,
    ∃! p : Nat × Nat × Nat, p.1 < n ∧ p.2.1 < core.depth ∧ p.2.2 < core.depth ∧
      (core.slot p.2.1 p.2.2).1 = e ∧ p.1 * groupSize + (core.slot p.2.1 p.2.2).2 = l

theorem holdsOnce (core : TensorCore) (n : Nat) : core.HoldsOnce n where
  slots := by
    rintro row hrow col hcol ⟨e, l⟩
    constructor
    · rintro ⟨he, hl, hpos⟩
      have hslot := slot_position hl he
      rw [hpos] at hslot
      exact hslot.symm
    · intro hs
      rw [hs]
      exact ⟨(slot_lt hrow hcol).1, (slot_lt hrow hcol).2, position_slot hrow hcol⟩
  places := by
    intro e he l hl
    have hg : l / groupSize < n := Nat.div_lt_of_lt_mul (Nat.mul_comm n _ ▸ hl)
    have hlane : l % groupSize < groupSize := Nat.mod_lt _ (by decide)
    obtain ⟨hrow, hcol⟩ := position_lt hlane he
    have hslot := slot_position hlane he
    refine ⟨(l / groupSize, core.position (l % groupSize) e), ⟨hg, hrow, hcol, ?_, ?_⟩, ?_⟩
    · rw [hslot]
    · rw [hslot, Nat.mul_comm]
      exact Nat.div_add_mod l groupSize
    · rintro ⟨g, row, col⟩ ⟨-, hrow', hcol', rfl, rfl⟩
      have hlt := (slot_lt hrow' hcol').2
      have hdiv : (g * groupSize + (core.slot row col).2) / groupSize = g := by
        rw [Nat.mul_comm, Nat.mul_add_div (by decide), Nat.div_eq_of_lt hlt, Nat.add_zero]
      have hmod : (g * groupSize + (core.slot row col).2) % groupSize = (core.slot row col).2 := by
        rw [Nat.mul_comm, Nat.mul_add_mod, Nat.mod_eq_of_lt hlt]
      rw [hdiv, hmod, position_slot hrow' hcol']

end Lockstep.TensorCore
