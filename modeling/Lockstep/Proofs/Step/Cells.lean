import Lockstep.Proofs.Run.Fits
import Mathlib.Data.Fin.VecNotation
import Mathlib.Data.List.FinRange

/-!
# Loads, cell by cell

A load has a cell for every sub-element and lane, and an operand that is a scalar offers its
lanes to each sub-element. A cell is read `j` past the offset of its lane, or takes the
default where its gate is false, and depends on no other cell.
-/

namespace Lockstep

/-! ## Cells -/

/-- One value for each sub-element and lane. -/
abbrev Cells (n lanes : Nat) := Fin n → Fin lanes → Value

variable {n lanes : Nat}

/-- The lanes of each sub-element, in order. -/
def Cells.rows (x : Cells n lanes) : List Lanes := List.ofFn fun j => List.ofFn (x j)

/-- A traversal of the numbers below a bound. -/
theorem mapM_finRange_eq_ok {ε α : Type} {f : Fin n → Except ε α} {r : List α} :
    (List.finRange n).mapM f = .ok r ↔ ∃ y : Fin n → α, r = List.ofFn y ∧ ∀ i, f i = .ok (y i) := by
  rw [mapM_eq_ok]
  constructor
  · intro h
    have hlength : r.length = n := h.length_eq.symm.trans (List.length_finRange)
    subst hlength
    refine ⟨fun i => r[i], List.ofFn_getElem.symm, fun i => ?_⟩
    have hi := h.get (i := i) (by simp) i.isLt
    simpa using hi
  · rintro ⟨y, rfl, hy⟩
    rw [List.ofFn_eq_map, List.forall₂_map_right_iff, List.forall₂_same]
    exact fun i _ => hy i

theorem map_mapM_finRange_eq_ok {ε α β : Type} {f : Fin n → Except ε α} {φ : List α → β} {r : β} :
    ((List.finRange n).mapM f).map φ = .ok r ↔
      ∃ y : Fin n → α, r = φ (List.ofFn y) ∧ ∀ i, f i = .ok (y i) := by
  rw [map_eq_ok]
  constructor
  · rintro ⟨_, h, rfl⟩
    obtain ⟨y, rfl, hy⟩ := mapM_finRange_eq_ok.mp h
    exact ⟨y, rfl, hy⟩
  · rintro ⟨y, rfl, hy⟩
    exact ⟨_, mapM_finRange_eq_ok.mpr ⟨y, rfl, hy⟩, rfl⟩

namespace Cells

variable {f : Fin n → Fin lanes → Except Fault Value}

/-- A computation for each cell, sub-element after sub-element. -/
def traverse (f : Fin n → Fin lanes → Except Fault Value) : Except Fault (List Lanes) :=
  (List.finRange n).mapM fun j => (List.finRange lanes).mapM (f j)

theorem traverse_eq_ok {r : List Lanes} :
    traverse f = .ok r ↔ ∃ y : Cells n lanes, r = y.rows ∧ ∀ j l, f j l = .ok (y j l) := by
  simp only [traverse, mapM_finRange_eq_ok]
  constructor
  · rintro ⟨rows, rfl, hrows⟩
    choose y hy hf using hrows
    exact ⟨y, congrArg List.ofFn (funext hy), hf⟩
  · rintro ⟨y, rfl, hf⟩
    exact ⟨fun j => List.ofFn (y j), rfl, fun j => ⟨y j, rfl, hf j⟩⟩

theorem traverse_raises (f : Fin n → Fin lanes → Except Fault Value) :
    Raises (traverse f) fun e => ∃ j l, f j l = .error e :=
  .mapM fun j _ => .mapM fun l _ _ he => ⟨j, l, he⟩

end Cells

/-! ## Operands and results -/

/-- How many sub-elements a value of the type has. -/
def DType.width (d : DType) : Nat := max 1 d.count

namespace LaneValues

/-- Lanes of several sub-elements as one value; those of a single one are a scalar. -/
def pack : List Lanes → LaneValues
  | [l] => .scalar l
  | es => .vector es

theorem pack_of_one_lt {es : List Lanes} (h : 1 < es.length) : pack es = .vector es := by
  match es with
  | [] => rfl
  | [l] => exact absurd h (Nat.lt_irrefl 1)
  | l :: l' :: r => rfl

/-- The value has these lanes for each sub-element. -/
def Offers (v : LaneValues) (x : Cells n lanes) : Prop :=
  ∀ j : Fin n, v.element? j = some (List.ofFn (x j))

/-- A scalar stands for each sub-element. -/
theorem offers_scalar (x : Fin lanes → Value) :
    (LaneValues.scalar (List.ofFn x)).Offers fun _ : Fin n => x := fun _ => rfl

theorem offers_vector (x : Cells n lanes) : (LaneValues.vector x.rows).Offers x := by
  intro j
  simp [element?, Cells.rows]

end LaneValues

namespace Operand

/-- The operand is a buffer that is no image, with these views on the lanes. -/
structure Linear (o : Operand) (views : Fin lanes → View) : Prop where
  values : o.values = .buffer (List.ofFn views)
  noImage : o.type.shape? = none

theorem element_of_offers {op : Operation} {ops : List Operand} {i : Nat} {o : Operand}
    {x : Cells n lanes} (hi : ops[i]? = some o) (ho : o.values.Offers x) (j : Fin n) :
    element op ops i j = .ok (List.ofFn (x j)) := by
  rw [element_eq_ok, hi]
  exact ho j

end Operand

/-! ## Loads -/

namespace Memory

variable (m : Memory) (views : Fin lanes → View)

theorem load_ofFn (o : Fin lanes → Value) (delta : Int) :
    m.load (List.ofFn views) (List.ofFn o) delta =
      (List.finRange lanes).mapM fun l => m.loadLane (views l) (o l) delta := by
  rw [load, List.ofFn_eq_map, List.ofFn_eq_map, List.zip_map', List.mapM_map]
  rfl

/-- What a gated load takes on one lane. -/
def gatedLane (v : View) (offset gate default : Value) (delta : Int) : Except Fault Value :=
  if gate.truthy then m.loadLane v offset delta else .ok default

theorem loadLane_eq_ok {m : Memory} {v : View} {offset y : Value} {delta : Int} :
    m.loadLane v offset delta = .ok y ↔
      ∃ i, offset.toInt? = some i ∧ m.read v (i + delta) = .ok y := by
  unfold loadLane address Memory.offset
  cases offset.toInt? with
  | none => simp [bind, Except.bind, Except.map]
  | some i => simp [bind, Except.bind, Except.map]

theorem gatedLane_eq_error {m : Memory} {v : View} {offset gate default : Value} {delta : Int}
    {f : Fault} : m.gatedLane v offset gate default delta = .error f ↔
      gate.truthy = true ∧ m.loadLane v offset delta = .error f := by
  unfold gatedLane
  split
  · rename_i hgate
    simp [hgate]
  · rename_i hgate
    simp [hgate]

theorem loadGated_ofFn (o g x : Fin lanes → Value) (delta : Int) :
    m.loadGated (List.ofFn views) (List.ofFn o) (List.ofFn g) (List.ofFn x) delta =
      (List.finRange lanes).mapM fun l => m.gatedLane (views l) (o l) (g l) (x l) delta := by
  simp only [loadGated, List.ofFn_eq_map, List.zip_map', List.mapM_map]
  rfl

end Memory

theorem loadElements_eq_mapM (m : Memory) (views : List View) (ops : List Operand) (k n : Nat) :
    loadElements m views ops k n =
      (List.finRange n).mapM fun j : Fin n => loadElement m views ops (k + j) := by
  induction n generalizing k with
  | zero => rfl
  | succ n ih =>
    rw [loadElements, ih, List.finRange_succ, List.mapM_cons, List.mapM_map]
    have hnext : ∀ j : Fin n, k + 1 + j = k + j.succ := fun j => by
      rw [Fin.val_succ]
      omega
    simp only [hnext]
    rfl

/-- A linear load of a scalar is one of a single sub-element. -/
theorem loadLinear_eq (m : Memory) (d : DType) (views : List View) (ops : List Operand) :
    loadLinear m d views ops = (loadElements m views ops 0 d.width).map .pack := by
  unfold loadLinear DType.width
  split
  · rename_i hd
    have hlt := one_lt_count hd
    rw [Nat.max_eq_right (Nat.le_of_lt hlt)]
    cases h : loadElements m views ops 0 d.count with
    | error f => rfl
    | ok es =>
      refine congrArg Except.ok (LaneValues.pack_of_one_lt ?_).symm
      rwa [length_loadElements h]
  · rename_i hd
    rw [Nat.max_eq_left (count_le_one hd), loadElements, loadElements]
    cases loadElement m views ops 0 with
    | error f => rfl
    | ok l => rfl

section

variable {m : Memory} {d : DType} {target offset gate default : Operand}
  {views : Fin lanes → View} {o g x : Cells n lanes}

theorem load_of_linear (hn : d.width = n) (ht : target.Linear views) (r : List Operand) :
    load m d (target :: r) =
      ((List.finRange n).mapM fun j : Fin n =>
        loadElement m (List.ofFn views) (target :: r) j).map .pack := by
  have hviews : Operand.views .load target.values = .ok (List.ofFn views) := by
    rw [Operand.views_eq_ok, ht.values]
    rfl
  subst hn
  simp only [load, hviews, ht.noImage, loadLinear_eq, loadElements_eq_mapM, Nat.zero_add]
  rfl

variable (hn : d.width = n) (ht : target.Linear views) (ho : offset.values.Offers o)
  (hg : gate.values.Offers g) (hx : default.values.Offers x)

include hn ht ho

/-- A load is made of those of its sub-elements. -/
theorem load_eq_mapM : load m d [target, offset] =
    ((List.finRange n).mapM fun j : Fin n =>
      m.load (List.ofFn views) (List.ofFn (o j)) j).map .pack := by
  rw [load_of_linear hn ht]
  congr 2
  funext j
  rw [loadElement, Operand.element_of_offers rfl ho]
  rfl

theorem load_eq_traverse : load m d [target, offset] =
    (Cells.traverse fun j l => m.loadLane (views l) (o j l) j).map .pack := by
  simp only [load_eq_mapM hn ht ho, Memory.load_ofFn, Cells.traverse]

/-- A load of several sub-elements is done when the load of each is. -/
theorem load_eq_ok_iff (r : LaneValues) : load m d [target, offset] = .ok r ↔
    ∃ rows : Fin n → Lanes, r = .pack (List.ofFn rows) ∧
      ∀ j : Fin n, m.load (List.ofFn views) (List.ofFn (o j)) j = .ok (rows j) := by
  rw [load_eq_mapM hn ht ho, map_mapM_finRange_eq_ok]

/-! ## Gates -/

include hg hx

theorem load_gated_eq_mapM : load m d [target, offset, gate, default] =
    ((List.finRange n).mapM fun j : Fin n => m.loadGated (List.ofFn views) (List.ofFn (o j))
      (List.ofFn (g j)) (List.ofFn (x j)) j).map .pack := by
  rw [load_of_linear hn ht]
  congr 2
  funext j
  rw [loadElement, Operand.element_of_offers rfl ho, Operand.element_of_offers rfl hg,
    Operand.element_of_offers rfl hx]
  rfl

theorem load_gated_eq_traverse : load m d [target, offset, gate, default] =
    (Cells.traverse fun j l => m.gatedLane (views l) (o j l) (g j l) (x j l) j).map .pack := by
  simp only [load_gated_eq_mapM hn ht ho hg hx, Memory.loadGated_ofFn, Cells.traverse]

theorem load_gated_eq_ok_iff (r : LaneValues) :
    load m d [target, offset, gate, default] = .ok r ↔
      ∃ rows : Fin n → Lanes, r = .pack (List.ofFn rows) ∧
        ∀ j : Fin n, m.loadGated (List.ofFn views) (List.ofFn (o j)) (List.ofFn (g j))
          (List.ofFn (x j)) j = .ok (rows j) := by
  rw [load_gated_eq_mapM hn ht ho hg hx, map_mapM_finRange_eq_ok]

/-- A gated load that is done has read the cells whose gates are true and no others. -/
theorem exists_cells_of_load_gated {r : LaneValues}
    (h : load m d [target, offset, gate, default] = .ok r) :
    ∃ y : Cells n lanes, r = .pack y.rows ∧ ∀ j l,
      ((g j l).truthy = false → y j l = x j l) ∧
      ((g j l).truthy = true →
        ∃ i, (o j l).toInt? = some i ∧ m.read (views l) (i + j) = .ok (y j l)) := by
  rw [load_gated_eq_traverse hn ht ho hg hx, map_eq_ok] at h
  obtain ⟨rows, hrows, rfl⟩ := h
  obtain ⟨y, rfl, hy⟩ := Cells.traverse_eq_ok.mp hrows
  refine ⟨y, rfl, ?_⟩
  intro j l
  have hcell := hy j l
  unfold Memory.gatedLane at hcell
  constructor
  · intro hoff
    rw [if_neg (by simp [hoff])] at hcell
    exact (Except.ok.inj hcell).symm
  · intro hon
    rw [if_pos hon] at hcell
    exact Memory.loadLane_eq_ok.mp hcell

/-- The fault of a gated load is that of a cell whose gate is true. -/
theorem load_gated_raises : Raises (load m d [target, offset, gate, default]) fun f =>
    ∃ j l, (g j l).truthy = true ∧ m.loadLane (views l) (o j l) j = .error f := by
  have hcells := Cells.traverse_raises fun (j : Fin n) l =>
    m.gatedLane (views l) (o j l) (g j l) (x j l) j
  rw [load_gated_eq_traverse hn ht ho hg hx]
  refine .map (hcells.mono ?_)
  rintro f ⟨j, l, hf⟩
  exact ⟨j, l, Memory.gatedLane_eq_error.mp hf⟩

/-- Offsets where the gate is false do not matter. -/
theorem load_gated_congr {offset' : Operand} {o' : Cells n lanes}
    (ho' : offset'.values.Offers o') (hsame : ∀ j l, (g j l).truthy = true → o' j l = o j l) :
    load m d [target, offset', gate, default] = load m d [target, offset, gate, default] := by
  have hcell (j : Fin n) (l : Fin lanes) :
      m.gatedLane (views l) (o' j l) (g j l) (x j l) j =
        m.gatedLane (views l) (o j l) (g j l) (x j l) j := by
    unfold Memory.gatedLane
    by_cases hon : (g j l).truthy = true
    · rw [hsame j l hon]
    · rw [if_neg hon, if_neg hon]
  rw [load_gated_eq_traverse hn ht ho' hg hx, load_gated_eq_traverse hn ht ho hg hx]
  simp only [hcell]

/-- A gated load whose gates are all true is a plain one. -/
theorem load_gated_of_open (hopen : ∀ j l, (g j l).truthy = true) :
    load m d [target, offset, gate, default] = load m d [target, offset] := by
  rw [load_gated_eq_traverse hn ht ho hg hx, load_eq_traverse hn ht ho]
  simp only [Memory.gatedLane, hopen, if_true]

end

/-- A gated load that is done gives the default where the gate is false, and elsewhere what
is read at `j` past the offset; it fails only as one of the latter does. It does not depend on
offsets where the gate is false, it is a plain load if all gates are true, and with or without
gates it is done with some lanes for each sub-element when the loads of the single
sub-elements are done with these. -/
theorem gated_load {m : Memory} {d : DType} {target offset gate default : Operand}
    {views : Fin lanes → View} {o g x : Cells n lanes} (hn : d.width = n)
    (ht : target.Linear views) (ho : offset.values.Offers o) (hg : gate.values.Offers g)
    (hx : default.values.Offers x) :
    (∀ r, load m d [target, offset, gate, default] = .ok r →
      ∃ y : Cells n lanes, r = .pack y.rows ∧ ∀ j l,
        ((g j l).truthy = false → y j l = x j l) ∧
        ((g j l).truthy = true →
          ∃ i, (o j l).toInt? = some i ∧ m.read (views l) (i + j) = .ok (y j l))) ∧
    (∀ f, load m d [target, offset, gate, default] = .error f →
      ∃ j l, (g j l).truthy = true ∧ m.loadLane (views l) (o j l) j = .error f) ∧
    (∀ (offset' : Operand) (o' : Cells n lanes), offset'.values.Offers o' →
      (∀ j l, (g j l).truthy = true → o' j l = o j l) →
      load m d [target, offset', gate, default] = load m d [target, offset, gate, default]) ∧
    ((∀ j l, (g j l).truthy = true) →
      load m d [target, offset, gate, default] = load m d [target, offset]) ∧
    (∀ r, load m d [target, offset] = .ok r ↔
      ∃ rows : Fin n → Lanes, r = .pack (List.ofFn rows) ∧
        ∀ j : Fin n, m.load (List.ofFn views) (List.ofFn (o j)) j = .ok (rows j)) ∧
    (∀ r, load m d [target, offset, gate, default] = .ok r ↔
      ∃ rows : Fin n → Lanes, r = .pack (List.ofFn rows) ∧
        ∀ j : Fin n, m.loadGated (List.ofFn views) (List.ofFn (o j)) (List.ofFn (g j))
          (List.ofFn (x j)) j = .ok (rows j)) := by
  refine ⟨?_, ?_, ?_, ?_, ?_, ?_⟩
  · intro r h
    exact exists_cells_of_load_gated hn ht ho hg hx h
  · exact load_gated_raises hn ht ho hg hx
  · intro offset' o' ho' hsame
    exact load_gated_congr hn ht ho hg hx ho' hsame
  · exact load_gated_of_open hn ht ho hg hx
  · exact load_eq_ok_iff hn ht ho
  · exact load_gated_eq_ok_iff hn ht ho hg hx

/-- Two sub-elements on two lanes, the gate of the second lane false: its offset may be no
integer, or beyond the buffer, and the lane takes the default. -/
theorem gated_load_shut_lane :
    let m : Memory := .ofBuffers [⟨.int .uint8, #[10, 20, 30]⟩]
    let byte (i : Int) : Value := .int .uint8 i
    let operand (v : LaneValues) : Operand := ⟨v, .scalar (.int .uint8)⟩
    let target := operand (.buffer (List.ofFn fun _ : Fin 2 => ⟨.global 0, .int .uint8⟩))
    let offset (x : Value) := operand (.scalar (List.ofFn ![byte 1, x]))
    let gate := operand (.scalar (List.ofFn ![.bool true, .bool false]))
    let default := operand (.vector (Cells.rows ![![byte 7, byte 7], ![byte 8, byte 8]]))
    let gated (x : Value) := load m (.vector (.int .uint8) 2) [target, offset x, gate, default]
    gated (.float .float32 .zero) = gated (byte 99) ∧
      gated (byte 99) = .ok (.vector [[byte 20, byte 7], [byte 30, byte 8]]) := by
  intro m byte operand target offset gate default gated
  have ht : target.Linear fun _ : Fin 2 => ⟨.global 0, .int .uint8⟩ := ⟨rfl, rfl⟩
  have ho (x : Value) : (offset x).values.Offers fun _ : Fin 2 => ![byte 1, x] :=
    LaneValues.offers_scalar _
  have hg : gate.values.Offers fun _ : Fin 2 => ![.bool true, .bool false] :=
    LaneValues.offers_scalar _
  have hx : default.values.Offers ![![byte 7, byte 7], ![byte 8, byte 8]] :=
    LaneValues.offers_vector _
  have hwidth : (DType.vector (.int .uint8) 2).width = 2 := rfl
  obtain ⟨-, -, hcongr, -⟩ := gated_load (m := m) hwidth ht (ho (byte 99)) hg hx
  refine ⟨hcongr _ _ (ho _) ?_, by decide +kernel⟩
  intro j l hon
  match l with
  | 0 => rfl
  | 1 => cases hon

end Lockstep
