import Lockstep.Instruction.Compute
import Lockstep.Instruction.Store
import Lockstep.Proofs.Memory.Integers

/-!
# Integers on all lanes

Arithmetic, loads and stores of a whole warp, each lane with an integer of its own.
-/

namespace Lockstep

/-- 32-bit integers, as an instruction declares them. -/
abbrev int32 : DType := .scalar (.int .int32)

theorem contains_int32_iff {i : Int} :
    IntType.int32.contains i = true ↔ -2147483648 ≤ i ∧ i ≤ 2147483647 := by
  rw [IntType.contains_iff]
  rfl

theorem contains_widest_int32_iff {i : Int} : IntType.int32.widest.contains i = true ↔
    -9223372036854775808 ≤ i ∧ i ≤ 9223372036854775807 := by
  rw [IntType.contains_iff]
  rfl

theorem contains_int32_of_lt {n : Nat} (hn : n < 2 ^ 31) : IntType.int32.contains n = true := by
  rw [contains_int32_iff]
  omega

/-- Each of the lanes has a value that holds its integer. -/
structure IntType.HoldLanes (t : IntType) (n : Nat) (f : Nat → Int) (lanes : Lanes) : Prop where
  length : lanes.length = n
  holds : ∀ j v, lanes[j]? = some v → t.Holds v (f j)

variable {t s : IntType} {n : Nat} {f g r : Nat → Int} {xs ys : Lanes} {d : DType}

namespace IntType.HoldLanes

theorem replicate {v : Value} {i : Int} (h : t.Holds v i) (n : Nat) :
    t.HoldLanes n (fun _ => i) (List.replicate n v) where
  length := List.length_replicate
  holds j w hw := by
    obtain rfl := List.eq_of_mem_replicate (List.mem_of_getElem? hw)
    exact h

theorem getElem? (h : t.HoldLanes n f xs) {j : Nat} (hj : j < n) :
    ∃ v, xs[j]? = some v ∧ t.Holds v (f j) :=
  have hj' : j < xs.length := h.length.symm ▸ hj
  ⟨xs[j], List.getElem?_eq_getElem hj', h.holds j _ (List.getElem?_eq_getElem hj')⟩

/-- What a traversal by lanes gives. -/
theorem of_mapM {α : Type} {l : List α} {F : α → Except Fault Value} (hl : l.length = n)
    (h : ∀ j a, l[j]? = some a → ∃ v, F a = .ok v ∧ t.Holds v (f j)) :
    ∃ lanes, l.mapM F = .ok lanes ∧ t.HoldLanes n f lanes := by
  have hok : ∀ a ∈ l, ∃ v, F a = .ok v := by
    intro a ha
    obtain ⟨j, hj⟩ := List.mem_iff_getElem?.mp ha
    obtain ⟨v, hv, -⟩ := h j a hj
    exact ⟨v, hv⟩
  obtain ⟨lanes, hlanes⟩ := mapM_ok_of_forall hok
  refine ⟨lanes, hlanes, (length_of_mapM hlanes).trans hl, ?_⟩
  intro j v hv
  have hj : j < l.length := length_of_mapM hlanes ▸ (List.getElem?_eq_some_iff.mp hv).1
  obtain ⟨w, hw, hF⟩ := getElem?_of_mapM hlanes (List.getElem?_eq_getElem hj)
  obtain rfl : w = v := Option.some.inj (hw.symm.trans hv)
  obtain ⟨v', hv', hholds⟩ := h j _ (List.getElem?_eq_getElem hj)
  obtain rfl : w = v' := Except.ok.inj (hF.symm.trans hv')
  exact hholds

end IntType.HoldLanes

/-- An operation on two integers per lane, if the widest type has the exact result on every
lane. -/
theorem alu_of_holds {op : AluOp} (hop : op ≠ .select) (hxs : t.HoldLanes n f xs)
    (hys : t.HoldLanes n g ys) (hexact : ∀ T j, Alu.exact T false op [f j, g j] = .number (r j))
    (hr : ∀ j, j < n → t.widest.contains (r j) = true) :
    ∃ zs, alu op (.scalar (.int t)) [⟨.scalar xs, .scalar (.int t)⟩,
      ⟨.scalar ys, .scalar (.int t)⟩] = .ok (.scalar zs) ∧ t.HoldLanes n r zs := by
  obtain ⟨zs, hzs, hholds⟩ := IntType.HoldLanes.of_mapM (l := List.range n) (t := t) (f := r)
    (F := fun l => Alu.execute op (.int t) (laneArguments [xs, ys] l)) List.length_range (by
      intro j l hl
      obtain ⟨hj, rfl⟩ := List.getElem?_eq_some_iff.mp hl
      rw [List.length_range] at hj
      obtain ⟨v, hv, hvh⟩ := hxs.getElem? hj
      obtain ⟨w, hw, hwh⟩ := hys.getElem? hj
      have hargs : laneArguments [xs, ys] j = [v, w] := by simp [laneArguments, hv, hw]
      rw [List.getElem_range, hargs]
      exact Alu.execute_of_holds hop hvh hwh (fun T => hexact T j) (hr j hj))
  refine ⟨zs, ?_, hholds⟩
  have hrows : Operand.scalars (.alu op) [⟨.scalar xs, .scalar (.int t)⟩,
      ⟨.scalar ys, .scalar (.int t)⟩] = .ok [xs, ys] := rfl
  unfold alu
  rw [hrows]
  simp [leadingCount, hxs.length, hys.length, hzs, DType.element, bind, Except.bind, pure,
    Except.pure]

/-- A load of one integer per lane. -/
theorem load_of_holds {m : Memory} {ref : BufferRef} {b : Buffer} {k : Nat → Nat}
    (hb : m.buffer? ref = some b) (hxs : s.HoldLanes n (fun j => k j) xs)
    (hk : ∀ j, j < n → k j < b.lengthAs (.int t)) :
    ∃ zs, load m (.scalar (.int t)) [⟨.buffer (List.replicate n ⟨ref, .int t⟩), .scalar (.int t)⟩,
      ⟨.scalar xs, d⟩] = .ok (.scalar zs) ∧ t.HoldLanes n (fun j => b.intAt t (k j)) zs := by
  obtain ⟨zs, hzs, hholds⟩ := IntType.HoldLanes.of_mapM (t := t) (n := n)
    (l := (List.replicate n (⟨ref, .int t⟩ : View)).zip xs) (f := fun j => b.intAt t (k j))
    (F := fun vo => m.loadLane vo.1 vo.2 (0 : Nat)) (by simp [hxs.length]) (by
      rintro j ⟨v, o⟩ hvo
      obtain ⟨hv, ho⟩ := List.getElem?_zip_eq_some.mp hvo
      have hj : j < n := hxs.length ▸ (List.getElem?_eq_some_iff.mp ho).1
      obtain rfl := List.eq_of_mem_replicate (List.mem_of_getElem? hv)
      refine ⟨_, ?_, IntType.holds_of_contains (b.contains_intAt t (k j))⟩
      have hoffset : Memory.address .load o (0 : Nat) = .ok (k j) := by
        simp [Memory.address, Memory.offset, (hxs.holds j o ho).toInt?_eq, Except.map]
      simp only [Memory.loadLane, hoffset]
      exact Memory.read_int hb (hk j hj))
  refine ⟨zs, ?_, hholds⟩
  change (loadElement m (List.replicate n ⟨ref, .int t⟩) _ 0).map LaneValues.scalar = _
  change (m.load (List.replicate n ⟨ref, .int t⟩) xs (0 : Nat)).map LaneValues.scalar = _
  rw [Memory.load, hzs]
  rfl

/-- The writes of a store of one integer per lane. -/
theorem storeWrites_of_holds {k : Nat → Nat} (ref : BufferRef) (pc : Nat) (d : DType)
    (s' : ScalarType) (hxs : s.HoldLanes n (fun j => k j) xs) (hys : t.HoldLanes n g ys) :
    ∃ ws, storeWrites pc [⟨.buffer (List.replicate n ⟨ref, .int t⟩), .scalar (.int t)⟩,
        ⟨.scalar xs, d⟩, ⟨.scalar ys, .scalar s'⟩] = .ok ws ∧
      List.Forall₂ (Memory.Stores ref t) ws ((List.range n).map fun j => (k j, g j)) := by
  refine ⟨Memory.writes (List.replicate n ⟨ref, .int t⟩) xs ys 0, rfl, ?_⟩
  rw [List.forall₂_iff_get]
  refine ⟨by simp [Memory.writes, hxs.length, hys.length], ?_⟩
  intro j hj hj'
  have hj : j < n := by simpa using hj'
  obtain ⟨x, hx, hxh⟩ := hxs.getElem? hj
  obtain ⟨y, hy, hyh⟩ := hys.getElem? hj
  have hx' := (List.getElem?_eq_some_iff.mp hx).2
  have hy' := (List.getElem?_eq_some_iff.mp hy).2
  simp only [Memory.writes, List.get_eq_getElem, List.getElem_map, List.getElem_zip,
    List.getElem_replicate, List.getElem_range, hx', hy']
  exact ⟨rfl, by simp [Memory.address, Memory.offset, hxh.toInt?_eq, Except.map], hyh⟩

end Lockstep
