import Lockstep.Proofs.Memory.Stores
import Lockstep.Proofs.Step.Cases
import Lockstep.Proofs.Step.Cells
import Mathlib.Data.Fintype.Fin
import Mathlib.Data.Fintype.Prod
import Mathlib.Data.List.ProdSigma
import Mathlib.Data.Prod.Lex

/-!
# Stores, cell by cell

A store goes through its cells in the order of sub-element and lane, and stores the value of
a cell `j` past the offset of the lane. A load from the same offsets finds the values if no
two cells go to the same address.
-/

namespace Lockstep

variable {n lanes : Nat}

/-! ## The order of cells -/

/-- The cells of an access, sub-element after sub-element. -/
def Cells.positions (n lanes : Nat) : List (Fin n × Fin lanes) :=
  List.finRange n ×ˢ List.finRange lanes

theorem Cells.mem_positions (p : Fin n × Fin lanes) : p ∈ Cells.positions n lanes :=
  List.mem_product.mpr ⟨List.mem_finRange _, List.mem_finRange _⟩

theorem Cells.positions_eq_flatMap (n lanes : Nat) : Cells.positions n lanes =
    (List.finRange n).flatMap fun j => (List.finRange lanes).map (Prod.mk j) := rfl

theorem Cells.pairwise_positions (n lanes : Nat) :
    (Cells.positions n lanes).Pairwise fun p q => toLex p < toLex q := by
  rw [positions_eq_flatMap, List.pairwise_flatMap]
  constructor
  · intro j _
    rw [List.pairwise_map]
    refine (List.pairwise_lt_finRange lanes).imp fun {l l'} h => ?_
    exact Prod.Lex.toLex_lt_toLex.mpr (.inr ⟨rfl, h⟩)
  · refine (List.pairwise_lt_finRange n).imp fun h p hp q hq => ?_
    obtain ⟨l, -, rfl⟩ := List.mem_map.mp hp
    obtain ⟨l', -, rfl⟩ := List.mem_map.mp hq
    exact Prod.Lex.toLex_lt_toLex.mpr (.inl h)

/-- The cells after a cell are later ones. -/
theorem Cells.exists_split (p : Fin n × Fin lanes) : ∃ before after,
    Cells.positions n lanes = before ++ p :: after ∧ ∀ q ∈ after, toLex p < toLex q := by
  obtain ⟨before, after, h⟩ := List.append_of_mem (mem_positions p)
  have hpairwise := pairwise_positions n lanes
  rw [h, List.pairwise_append, List.pairwise_cons] at hpairwise
  exact ⟨before, after, h, hpairwise.2.1.1⟩

/-! ## The writes of a store -/

/-- Where the value of each cell goes. -/
def Cells.scattered (i : Fin lanes → Int) (x : Cells n lanes) : List (Int × Value) :=
  (positions n lanes).map fun p => (i p.2 + p.1, x p.1 p.2)

variable {v : View} {o : Fin lanes → Value} {i : Fin lanes → Int} {x : Cells n lanes}

theorem Memory.writes_ofFn (ho : ∀ l, (o l).toInt? = some (i l)) (y : Fin lanes → Value)
    (delta : Int) :
    Memory.writes (List.ofFn fun _ : Fin lanes => v) (List.ofFn o) (List.ofFn y) delta =
      v.stores ((List.finRange lanes).map fun l => (i l + delta, y l)) := by
  simp only [Memory.writes, View.stores, List.ofFn_eq_map, List.zip_map', List.map_map]
  refine List.map_congr_left fun l _ => ?_
  simp [Memory.address, Memory.offset, ho, Except.map]

theorem Cells.zipIdx_rows (x : Cells n lanes) :
    x.rows.zipIdx = (List.finRange n).map fun j => (List.ofFn (x j), j.val) := by
  refine List.ext_getElem (by simp [rows]) fun k _ _ => ?_
  simp [rows]

theorem Memory.vectorWrites_rows (ho : ∀ l, (o l).toInt? = some (i l)) (x : Cells n lanes) :
    Memory.vectorWrites (List.ofFn fun _ : Fin lanes => v) (List.ofFn o) x.rows =
      v.stores (Cells.scattered i x) := by
  simp only [Memory.vectorWrites, Cells.zipIdx_rows, List.flatMap_map, Memory.writes_ofFn ho,
    View.stores, Cells.scattered, Cells.positions_eq_flatMap, List.map_flatMap, List.map_map]
  rfl

/-- A single sub-element is stored as its lanes are. -/
theorem Memory.vectorWrites_singleton (views : List View) (offsets l : Lanes) :
    Memory.vectorWrites views offsets [l] = Memory.writes views offsets l 0 := by
  simp [Memory.vectorWrites]

section

variable {pc : Nat} {c c' : Context} {d : DType} {target offset value : Operand}

/-- What is declared a scalar is a single sub-element. -/
theorem linearStore_pack {rows : List Lanes} {offsets : Lanes}
    (hoffset : offset.values = .scalar offsets) (hvalue : value.values = .pack rows)
    (hrows : rows.length = value.type.width) (views : List View) (target : Operand) :
    linearStore views [target, offset, value] value =
      .ok (Memory.vectorWrites views offsets rows) := by
  have hscalar : Operand.scalar (.memory .store) [target, offset, value] 1 = .ok offsets := by
    rw [Operand.scalar_eq_ok]
    exact congrArg LaneValues.scalar? hoffset
  rw [linearStore, hscalar]
  by_cases hd : value.type.isVector = true
  · have hlt := one_lt_count hd
    rw [DType.width, Nat.max_eq_right (Nat.le_of_lt hlt)] at hrows
    have hvector : Operand.vector (.memory .store) [target, offset, value] 2 = .ok rows := by
      rw [Operand.vector_eq_ok]
      refine (congrArg LaneValues.vector? hvalue).trans ?_
      rw [LaneValues.pack_of_one_lt (hrows.symm ▸ hlt)]
      rfl
    simp only [hd, hvector, bind, Except.bind, pure, Except.pure, if_true]
  · rw [DType.width, Nat.max_eq_left (count_le_one hd)] at hrows
    obtain ⟨l, rfl⟩ := List.length_eq_one_iff.mp hrows
    have hlanes : Operand.scalar (.memory .store) [target, offset, value] 2 = .ok l := by
      rw [Operand.scalar_eq_ok]
      exact congrArg LaneValues.scalar? hvalue
    simp only [hd, hlanes, bind, Except.bind, pure, Except.pure, Memory.vectorWrites_singleton]
    rfl

theorem storeWrites_of_linear (ht : target.Linear fun _ : Fin lanes => v)
    (hoffset : offset.values = .scalar (List.ofFn o)) (ho : ∀ l, (o l).toInt? = some (i l))
    (hvalue : value.values = .pack x.rows) (hn : value.type.width = n) :
    storeWrites pc [target, offset, value] = .ok (v.stores (Cells.scattered i x)) := by
  have hviews : Operand.views .store target.values = .ok (List.ofFn fun _ : Fin lanes => v) := by
    rw [Operand.views_eq_ok, ht.values]
    rfl
  have hrows : x.rows.length = value.type.width := by simp [Cells.rows, hn]
  simp only [storeWrites, hviews, ht.noImage, bind, Except.bind,
    linearStore_pack hoffset hvalue hrows, Memory.vectorWrites_rows ho]

end

/-! ## What is left in memory -/

section

variable {m m' : Memory}

/-- An element keeps the value of the last cell that goes there. -/
theorem read_last_cell (hf : v.format.isFloat = false) (hx : ∀ j l, (x j l).WellFormed)
    (h : m.perform (v.stores (Cells.scattered i x)) = (m', .ok ())) (j : Fin n) (l : Fin lanes)
    (hlast : ∀ j' l', toLex (j, l) < toLex (j', l') → i l' + j' ≠ i l + j) :
    ∃ w, (x j l).convert v.format = .ok w ∧ m'.read v (i l + j) = .ok w := by
  obtain ⟨before, after, hsplit, hafter⟩ := Cells.exists_split (j, l)
  rw [Cells.scattered, hsplit, List.map_append, List.map_cons] at h
  apply Memory.read_of_last_store (hx j l) hf h
  intro e he
  obtain ⟨q, hq, rfl⟩ := List.mem_map.mp he
  exact hlast q.1 q.2 (hafter q hq)

/-- An element that no cell goes to stays. -/
theorem read_other_cell (h : m.perform (v.stores (Cells.scattered i x)) = (m', .ok ())) {a : Int}
    (ha : ∀ (j : Fin n) (l : Fin lanes), i l + j ≠ a) : m'.read v a = m.read v a := by
  apply Memory.read_of_perform_stores h
  intro e he
  obtain ⟨q, -, rfl⟩ := List.mem_map.mp he
  exact ha q.1 q.2

/-- Cells that go to different addresses. -/
theorem nodup_scattered (hi : Function.Injective fun p : Fin n × Fin lanes => i p.2 + p.1)
    (x : Cells n lanes) : ((Cells.scattered i x).map Prod.fst).Nodup := by
  rw [Cells.scattered, List.map_map]
  refine List.Nodup.map hi ?_
  exact (List.nodup_finRange n).product (List.nodup_finRange lanes)

end

/-! ## Stores and loads -/

section

variable {c c' : Context} {d : DType} {target offset value : Operand}

/-- A load finds what was stored. -/
theorem load_of_perform {m m' : Memory} (hf : v.format.isFloat = false)
    (hx : ∀ j l, (x j l).WellFormed) (ht : target.Linear fun _ : Fin lanes => v)
    (hoffset : offset.values = .scalar (List.ofFn o)) (ho : ∀ l, (o l).toInt? = some (i l))
    (hd : d.width = n) (hi : Function.Injective fun p : Fin n × Fin lanes => i p.2 + p.1)
    (h : m.perform (v.stores (Cells.scattered i x)) = (m', .ok ())) :
    ∃ y : Cells n lanes, load m' d [target, offset] = .ok (.pack y.rows) ∧
      ∀ j l, (x j l).convert v.format = .ok (y j l) := by
  -- no two cells share an address, so each is the last one at its own
  have hcell (j : Fin n) (l : Fin lanes) :
      ∃ w, (x j l).convert v.format = .ok w ∧ m'.read v (i l + j) = .ok w := by
    apply read_last_cell hf hx h j l
    intro j' l' hlt heq
    exact hlt.ne (congrArg toLex (hi heq.symm))
  choose y hconvert hread using hcell
  have hoffers : offset.values.Offers fun _ : Fin n => o := by
    rw [hoffset]
    exact LaneValues.offers_scalar o
  refine ⟨y, ?_, hconvert⟩
  rw [load_eq_traverse hd ht hoffers, map_eq_ok]
  exact ⟨Cells.rows y, Cells.traverse_eq_ok.mpr ⟨y, rfl, fun j l =>
    Memory.loadLane_eq_ok.mpr ⟨i l, ho l, hread j l⟩⟩, rfl⟩

/-- After a store an element has the value of the last cell that goes there, in the order of
sub-element and lane, and the elements that no cell goes to are as before. If all cells go to
different addresses, then a load from the same offsets gives the values back as they were
converted, and the writes leave the same memory in any order. -/
theorem load_of_store (hf : v.format.isFloat = false) (hx : ∀ j l, (x j l).WellFormed)
    (ht : target.Linear fun _ : Fin lanes => v)
    (hoffset : offset.values = .scalar (List.ofFn o)) (ho : ∀ l, (o l).toInt? = some (i l))
    (hvalue : value.values = .pack x.rows) (hn : value.type.width = n) (hd : d.width = n)
    (h : store c [target, offset, value] = (c', .ok .proceed)) :
    (∀ (j : Fin n) (l : Fin lanes),
      (∀ (j' : Fin n) (l' : Fin lanes), toLex (j, l) < toLex (j', l') → i l' + j' ≠ i l + j) →
      ∃ w, (x j l).convert v.format = .ok w ∧ c'.memory.read v (i l + j) = .ok w) ∧
    (∀ a, (∀ (j : Fin n) (l : Fin lanes), i l + j ≠ a) →
      c'.memory.read v a = c.memory.read v a) ∧
    (∀ r, r ≠ v.buffer → c'.memory.buffer? r = c.memory.buffer? r) ∧
    ((Function.Injective fun p : Fin n × Fin lanes => i p.2 + p.1) →
      (∃ y : Cells n lanes, load c'.memory d [target, offset] = .ok (.pack y.rows) ∧
        ∀ j l, (x j l).convert v.format = .ok (y j l)) ∧
      ∃ ws, storeWrites c.pc [target, offset, value] = .ok ws ∧
        ∀ ws', ws'.Perm ws → c.memory.perform ws' = (c'.memory, .ok ())) := by
  obtain ⟨ws, m, hws, hm, rfl, -⟩ := exists_writes_of_store h
  obtain rfl : v.stores (Cells.scattered i x) = ws :=
    Except.ok.inj ((storeWrites_of_linear ht hoffset ho hvalue hn).symm.trans hws)
  refine ⟨read_last_cell hf hx hm, ?_, ?_, ?_⟩
  · intro a ha
    exact read_other_cell hm ha
  · intro r hr
    exact Memory.buffer?_of_perform_stores hm hr
  · intro hi
    refine ⟨load_of_perform hf hx ht hoffset ho hd hi hm, _, hws, ?_⟩
    intro ws' hperm
    exact Memory.perform_of_perm hperm (nodup_scattered hi x) hm

end

/-- Two sub-elements on two lanes, stored as bytes. From the offsets 0 and 2 they are loaded
again; from 0 and 1 the second sub-element of the first lane takes the place of the first
one of the second lane. -/
theorem load_of_store_pairs :
    let c : Context := .start ⟨0, 0, 0⟩ ⟨⟨2, 1, 1⟩⟩ [⟨.int .uint8, #[0, 0, 0, 0]⟩] []
    let v : View := ⟨.global 0, .int .uint8⟩
    let word (k : Int) : Value := .int .int32 k
    let byte (k : Int) : Value := .int .uint8 k
    let target : Operand := ⟨.buffer (List.ofFn fun _ : Fin 2 => v), .scalar (.int .uint8)⟩
    let offset (k : Int) : Operand := ⟨.scalar (List.ofFn ![word 0, word k]), .scalar (.int .int32)⟩
    let value : Operand := ⟨.pack (Cells.rows ![![word 1, word 2], ![word 3, word 4]]),
      .vector (.int .int32) 2⟩
    (∃ c', store c [target, offset 2, value] = (c', .ok .proceed) ∧
      load c'.memory (.vector (.int .uint8) 2) [target, offset 2] =
        .ok (.vector [[byte 1, byte 2], [byte 3, byte 4]])) ∧
    ∃ c', store c [target, offset 1, value] = (c', .ok .proceed) ∧
      c'.memory.read v 1 = .ok (byte 3) := by
  intro c v word byte target offset value
  have hx : ∀ (j l : Fin 2), (![![word 1, word 2], ![word 3, word 4]] j l).WellFormed := by decide
  have ht : target.Linear fun _ : Fin 2 => v := ⟨rfl, rfl⟩
  have ho (k : Int) : ∀ l : Fin 2, (![word 0, word k] l).toInt? = some (![0, k] l) := by
    intro l
    match l with
    | 0 => rfl
    | 1 => rfl
  obtain ⟨c₁, hc₁⟩ : ∃ c', store c [target, offset 2, value] = (c', .ok .proceed) :=
    ⟨_, Prod.ext rfl (by decide +kernel : (store c [target, offset 2, value]).2 = .ok .proceed)⟩
  obtain ⟨c₂, hc₂⟩ : ∃ c', store c [target, offset 1, value] = (c', .ok .proceed) :=
    ⟨_, Prod.ext rfl (by decide +kernel : (store c [target, offset 1, value]).2 = .ok .proceed)⟩
  have hn : value.type.width = 2 := rfl
  have hd : (DType.vector (.int .uint8) 2).width = 2 := rfl
  obtain ⟨-, -, -, hback⟩ := load_of_store rfl hx ht rfl (ho 2) rfl hn hd hc₁
  obtain ⟨hlast, -⟩ := load_of_store rfl hx ht rfl (ho 1) rfl hn hd hc₂
  constructor
  · obtain ⟨⟨y, hload, hy⟩, -⟩ := hback (by decide)
    obtain rfl : y = ![![byte 1, byte 2], ![byte 3, byte 4]] := by
      funext j l
      refine (Except.ok.inj ((hy j l).symm.trans ?_))
      match j, l with
      | 0, 0 => rfl
      | 0, 1 => rfl
      | 1, 0 => rfl
      | 1, 1 => rfl
    exact ⟨c₁, hc₁, hload⟩
  · obtain ⟨w, hw, hread⟩ := hlast 1 0 (by decide)
    cases hw
    exact ⟨c₂, hc₂, hread⟩

end Lockstep
