import Lockstep.Proofs.Run.Lanes
import Lockstep.Proofs.Step.Failure
import Lockstep.Proofs.Step.Strict
import Lockstep.Proofs.TensorCore.Layout

/-!
# Numbers in range

Where every value has the lanes of the warp, looking lanes up by number is the
same as pairing them up. So no step of an accepted program asks for an element
that is not there, nor finds operands of different lengths.
-/

namespace Lockstep

namespace Strict

open TensorCore (Shaped)

variable {α β : Type} {n : Nat}

/-- Sequences agree if what follows agrees on every result. -/
theorem lift_bind_of {x : Except Fault α} {f : α → Except Fault β} {g : α → Except Stop β}
    (h : ∀ a, x = .ok a → g a = lift (f a)) : (lift x >>= g) = lift (x >>= f) := by
  cases x with
  | error e => rfl
  | ok a => exact h a rfl

theorem map_lift_of {x : Except Fault α} {y : Except Stop α} (h : y = lift x) (f : α → β) :
    y.map f = lift (x.map f) := by
  rw [h, lift_map]

/-! ## Loads -/

section

variable {m : Memory} {views : List View} {offsets xs ys : Lanes} {ops : List Operand} {d : DType}

theorem load_eq {delta : Int} (hv : views.length = n) (ho : offsets.length = n) :
    load m views offsets delta = lift (m.load views offsets delta) := by
  have hlen : (views.zip offsets).length = views.length := by simp [hv, ho]
  rw [load, Memory.load, lift_mapM, ← hlen]
  refine mapM_range fun lane hlane => ?_
  rw [lookup_eq (show lane < views.length by omega), lookup_eq (show lane < offsets.length by omega),
    List.getElem_zip]
  rfl

theorem loadGated_eq {gate default : Lanes} {delta : Int} (hv : views.length = n)
    (ho : offsets.length = n) (hg : gate.length = n) (hd : default.length = n) :
    loadGated m views offsets gate default delta =
      lift (m.loadGated views offsets gate default delta) := by
  have hlen : ((views.zip offsets).zip (gate.zip default)).length = views.length := by
    simp [hv, ho, hg, hd]
  rw [loadGated, Memory.loadGated, lift_mapM, ← hlen]
  refine mapM_range fun lane hlane => ?_
  simp only [lookup_eq (show lane < views.length by omega),
    lookup_eq (show lane < offsets.length by omega), lookup_eq (show lane < gate.length by omega),
    lookup_eq (show lane < default.length by omega), List.getElem_zip]
  change _ = lift (if gate[lane].truthy then m.loadLane views[lane] offsets[lane] delta
    else .ok default[lane])
  rw [lift_ite]
  rfl

theorem loadElement_eq {j : Nat} (hv : views.length = n) (h : OperandsHaveLanes n ops) :
    loadElement m views ops j = lift (Lockstep.loadElement m views ops j) := by
  refine lift_bind_of fun offsets ho => ?_
  have ho := Operand.length_element h ho
  rw [lift_ite]
  split
  · refine lift_bind_of fun gate hg => lift_bind_of fun default hd => ?_
    exact loadGated_eq hv ho (Operand.length_element h hg) (Operand.length_element h hd)
  · exact load_eq hv ho

theorem loadElements_eq {j count : Nat} (hv : views.length = n) (h : OperandsHaveLanes n ops) :
    loadElements m views ops j count = lift (Lockstep.loadElements m views ops j count) := by
  induction count generalizing j with
  | zero => rfl
  | succ count ih =>
    rw [loadElements, Lockstep.loadElements, loadElement_eq hv h]
    refine lift_bind_of fun lanes _ => ?_
    rw [ih]
    exact lift_bind_of fun _ _ => rfl

theorem loadImage_eq {height width : Nat} (hv : views.length = n) (hx : xs.length = n)
    (hy : ys.length = n) :
    loadImage m views height width xs ys = lift (m.loadImage views height width xs ys) := by
  have hlen : (views.zip (xs.zip ys)).length = views.length := by simp [hv, hx, hy]
  rw [loadImage, Memory.loadImage, lift_mapM]
  refine mapM_congr fun c _ => ?_
  rw [lift_mapM, ← hlen]
  refine mapM_range fun lane hlane => ?_
  simp only [lookup_eq (show lane < views.length by omega), lookup_eq (show lane < xs.length by omega),
    lookup_eq (show lane < ys.length by omega), List.getElem_zip]
  rfl

theorem loadTexels_eq {height width : Nat} (hv : views.length = n) (h : OperandsHaveLanes n ops) :
    loadTexels m d views height width ops =
      lift (Lockstep.loadTexels m d views height width ops) := by
  unfold Lockstep.loadTexels
  rw [lift_ite, loadTexels]
  split
  · rfl
  · refine lift_bind_of fun xy hxy => ?_
    obtain ⟨hx, hy⟩ := Operand.lanes_coordinates h hxy
    exact map_lift_of (loadImage_eq hv hx hy) _

theorem loadLinear_eq (hv : views.length = n) (h : OperandsHaveLanes n ops) :
    loadLinear m d views ops = lift (Lockstep.loadLinear m d views ops) := by
  rw [Lockstep.loadLinear, lift_ite, loadLinear]
  split
  · exact map_lift_of (loadElements_eq hv h) _
  · exact map_lift_of (loadElement_eq hv h) _

theorem loadValue_eq (h : OperandsHaveLanes n ops) :
    loadValue m d ops = lift (Lockstep.load m d ops) := by
  cases ops with
  | nil => rfl
  | cons o r =>
    refine lift_bind_of fun views hviews => ?_
    have hv := Operand.length_views (h o List.mem_cons_self) hviews
    have htype : typeOf (o :: r) 0 = .ok o.type := rfl
    rw [htype]
    dsimp only [bind, Except.bind]
    cases o.type.shape? with
    | some shape => exact loadTexels_eq hv h
    | none => exact loadLinear_eq hv h

/-! ## Stores -/

theorem writes_eq {values : Lanes} {delta : Int} (hv : views.length = n) (ho : offsets.length = n)
    (hx : values.length = n) :
    writes views offsets values delta = .ok (Memory.writes views offsets values delta) := by
  have hlen : (views.zip (offsets.zip values)).length = views.length := by simp [hv, ho, hx]
  rw [writes, Memory.writes, ← hlen]
  refine (mapM_range (f := fun a => pure _) fun lane hlane => ?_).trans List.mapM_pure
  simp only [lookup_eq (show lane < views.length by omega),
    lookup_eq (show lane < offsets.length by omega), lookup_eq (show lane < values.length by omega),
    List.getElem_zip]
  rfl

/-- Rows of writes, one after the other. -/
theorem mapM_flatten {f : α → List β} {g : α → Except Stop (List β)} {l : List α}
    (h : ∀ a ∈ l, g a = .ok (f a)) : (l.mapM g).map List.flatten = .ok (l.flatMap f) := by
  rw [mapM_congr (g := fun a => pure (f a)) h, List.mapM_pure, List.flatMap_def]
  rfl

theorem vectorWrites_eq {elements : List Lanes} (hv : views.length = n) (ho : offsets.length = n)
    (he : ∀ e ∈ elements, e.length = n) :
    vectorWrites views offsets elements = .ok (Memory.vectorWrites views offsets elements) :=
  mapM_flatten fun _ ha => writes_eq hv ho (he _ (List.fst_mem_of_mem_zipIdx ha))

theorem imageWrites_eq {height width : Nat} {elements : List Lanes} (hv : views.length = n)
    (hx : xs.length = n) (hy : ys.length = n) (he : ∀ e ∈ elements, e.length = n) :
    imageWrites views height width xs ys elements =
      lift (Memory.imageWrites views height width xs ys elements) := by
  rw [Memory.imageWrites, lift_ite, imageWrites]
  split
  · rfl
  · refine mapM_flatten fun e ha => ?_
    have hel : e.1.length = n := he _ (List.fst_mem_of_mem_zipIdx ha)
    have hlen : (views.zip ((xs.zip ys).zip e.1)).length = views.length := by
      simp [hv, hx, hy, hel]
    rw [channelWrites, ← hlen]
    refine (mapM_range (f := fun a => pure _) fun lane hlane => ?_).trans List.mapM_pure
    simp only [lookup_eq (show lane < views.length by omega),
      lookup_eq (show lane < xs.length by omega), lookup_eq (show lane < ys.length by omega),
      lookup_eq (show lane < e.1.length by omega), List.getElem_zip]
    rfl

theorem texelStore_eq {height width : Nat} {value : Operand} (hv : views.length = n)
    (h : OperandsHaveLanes n ops) :
    texelStore views height width ops value.type =
      lift (Lockstep.texelStore views height width ops value) := by
  rw [Lockstep.texelStore, lift_ite, texelStore]
  split
  · rfl
  · refine lift_bind_of fun xy hxy => lift_bind_of fun elements hes => ?_
    obtain ⟨hx, hy⟩ := Operand.lanes_coordinates h hxy
    exact imageWrites_eq hv hx hy (Operand.lanes_vector h hes).2

theorem linearStore_eq {value : Operand} (hv : views.length = n) (h : OperandsHaveLanes n ops) :
    linearStore views ops value.type = lift (Lockstep.linearStore views ops value) := by
  refine lift_bind_of fun offsets ho => ?_
  have ho := Operand.length_scalar h ho
  rw [lift_ite]
  split
  · exact lift_bind_of fun elements hes => vectorWrites_eq hv ho (Operand.lanes_vector h hes).2
  · exact lift_bind_of fun values hx => writes_eq hv ho (Operand.length_scalar h hx)

theorem storeWrites_eq {pc : Nat} (h : OperandsHaveLanes n ops) :
    storeWrites pc ops = lift (Lockstep.storeWrites pc ops) := by
  unfold Lockstep.storeWrites
  split
  · rename_i o offset value
    refine lift_bind_of fun views hviews => ?_
    have hv := Operand.length_views (h o List.mem_cons_self) hviews
    have hvalue : typeOf [o, offset, value] 2 = .ok value.type := rfl
    have htype : typeOf [o, offset, value] 0 = .ok o.type := rfl
    rw [hvalue, htype]
    dsimp only [bind, Except.bind]
    cases o.type.shape? with
    | some shape => exact texelStore_eq hv h
    | none => exact linearStore_eq hv h
  · rename_i hshape
    have hne : ops.length ≠ 3 := by
      intro h
      obtain ⟨a, b, v, rfl⟩ := List.length_eq_three.mp h
      exact hshape a b v rfl
    rw [storeWrites, lift_ite, if_pos hne]
    rfl

end

/-! ## Arithmetic -/

section

variable {ops : List Operand} {d : DType}

theorem arguments_eq {rows : List Lanes} {lane : Nat} (h : ∀ r ∈ rows, lane < r.length) :
    rows.mapM (lookup · lane) = .ok (laneArguments rows lane) := by
  induction rows with
  | nil => rfl
  | cons r rows ih =>
    have hr := h r List.mem_cons_self
    have hcons : laneArguments (r :: rows) lane = r[lane] :: laneArguments rows lane := by
      simp [laneArguments, hr]
    rw [List.mapM_cons, ih fun r' hr' => h r' (List.mem_cons_of_mem _ hr'), lookup_eq hr, hcons]
    rfl

/-- The operation has asked for the numbers of lanes, so this needs no
assumption. -/
theorem alu_eq {op : AluOp} : alu op d ops = lift (Lockstep.alu op d ops) := by
  refine lift_bind_of fun rows hrows => ?_
  dsimp only
  rw [lift_ite]
  split
  · rfl
  · rename_i hcounts
    rw [lift_ite]
    split
    · rfl
    · refine map_lift_of ?_ _
      rw [lift_mapM]
      refine mapM_congr fun lane hlane => ?_
      have hall : ∀ r ∈ rows, lane < r.length := by
        intro r hr
        have hlen : r.length = leadingCount rows := by
          by_contra hne
          exact hcounts (List.any_eq_true.mpr ⟨r, hr, by simpa using hne⟩)
        rw [hlen]
        exact List.mem_range.mp hlane
      rw [arguments_eq hall]
      rfl

theorem arithmetic_eq {pc : Nat} {arg : Arg} :
    arithmetic pc d arg ops = lift (Lockstep.arithmetic pc d arg ops) := by
  cases arg with
  | operation op => exact alu_eq
  | _ => rfl

/-! ## Tensor cores -/

variable {core : TensorCore} {a b c x : List Lanes} {out : ScalarType}

theorem entry_eq {element lane : Nat} (he : element < x.length) (h : ∀ l ∈ x, l.length = n)
    (hl : lane < n) : entry x element lane = .ok (TensorCore.entry x element lane) := by
  have hlane : lane < x[element].length := by rwa [h _ (List.getElem_mem he)]
  have hentry : TensorCore.entry x element lane = x[element][lane] := by
    simp [TensorCore.entry, he, hlane]
  rw [entry, lookup_eq he, hentry]
  exact lookup_eq hlane

theorem metalFactor_eq {i j base : Nat} (hx : x.length = TensorCore.metal.factorElements)
    (h : ∀ l ∈ x, l.length = n) (hi : i < TensorCore.metal.depth) (hj : j < TensorCore.metal.depth)
    (hbase : base + TensorCore.groupSize ≤ n) :
    metalFactor x i j base = .ok (TensorCore.metalFactor x i j base) := by
  simp only [TensorCore.factorElements, TensorCore.depth, TensorCore.groupSize] at hx hi hj hbase
  exact entry_eq (by omega) h (by omega)

theorem rdnaFactor_eq {i j base : Nat} (hx : x.length = TensorCore.rdna.factorElements)
    (h : ∀ l ∈ x, l.length = n) (hi : i < TensorCore.rdna.depth) (hj : j < TensorCore.rdna.depth)
    (hbase : base + TensorCore.groupSize ≤ n) :
    rdnaFactor x i j base = lift (TensorCore.rdnaFactor x i j base) := by
  simp only [TensorCore.factorElements, TensorCore.depth, TensorCore.groupSize] at hx hi hj hbase
  rw [rdnaFactor, entry_eq (by omega) h (by omega), entry_eq (by omega) h (by omega),
    TensorCore.rdnaFactor, lift_ite]
  rfl

theorem first_eq {i j base : Nat} (hx : x.length = core.factorElements)
    (h : ∀ l ∈ x, l.length = n) (hi : i < core.depth) (hj : j < core.depth)
    (hbase : base + TensorCore.groupSize ≤ n) :
    first core x i j base = lift (core.first x i j base) := by
  cases core with
  | metal => exact metalFactor_eq hx h hi hj hbase
  | rdna => exact rdnaFactor_eq hx h hi hj hbase

theorem second_eq {i j base : Nat} (hx : x.length = core.factorElements)
    (h : ∀ l ∈ x, l.length = n) (hi : i < core.depth) (hj : j < core.depth)
    (hbase : base + TensorCore.groupSize ≤ n) :
    second core x i j base = lift (core.second x i j base) := by
  cases core with
  | metal => exact metalFactor_eq hx h hi hj hbase
  | rdna => exact rdnaFactor_eq hx h hj hi hbase

theorem cell_eq {base lane element : Nat} (ha : Shaped a core.factorElements n)
    (hb : Shaped b core.factorElements n) (hc : Shaped c core.sumElements n)
    (hbase : base + TensorCore.groupSize ≤ n) (hl : lane < TensorCore.groupSize)
    (he : element < core.sumElements) :
    cell core a b c out base lane element = lift (core.cell a b c out base lane element) := by
  have hstart : entry c element (base + lane) = .ok (TensorCore.entry c element (base + lane)) :=
    entry_eq (by rw [hc.elements]; exact he) hc.lanes (by omega)
  have hposition : (core.position lane element).1 < core.depth ∧
      (core.position lane element).2 < core.depth := TensorCore.position_lt hl he
  rw [cell, hstart, TensorCore.cell]
  generalize core.position lane element = position at hposition ⊢
  obtain ⟨row, col⟩ := position
  have hterm : ∀ sum, ∀ k ∈ List.range core.depth,
      addTerm core a b row col base sum k = lift (core.addTerm a b row col base sum k) := by
    intro sum k hk
    have hk := List.mem_range.mp hk
    rw [addTerm, first_eq ha.elements ha.lanes hk hposition.2 hbase,
      second_eq hb.elements hb.lanes hposition.1 hk hbase]
    exact lift_bind_of fun _ _ => lift_bind_of fun _ _ => rfl
  have hsum := (foldlM_congr hterm (TensorCore.entry c element (base + lane)).toFloat).trans
    (lift_foldlM _ _ _).symm
  change Except.bind (List.foldlM (addTerm core a b row col base) _ _) _ = _
  rw [hsum]
  exact lift_bind_of fun _ _ => rfl

theorem cells_eq {lanes : Nat} (ha : Shaped a core.factorElements lanes)
    (hb : Shaped b core.factorElements lanes) (hc : Shaped c core.sumElements lanes)
    (hlanes : lanes % TensorCore.groupSize = 0) :
    cells core a b c out lanes = lift (core.cells a b c out lanes) := by
  rw [cells, TensorCore.cells, lift_mapM]
  refine mapM_congr fun l hl => ?_
  rw [lift_mapM]
  refine mapM_congr fun e he => ?_
  have hl := List.mem_range.mp hl
  have hgroup : l % TensorCore.groupSize < TensorCore.groupSize := Nat.mod_lt _ (by decide)
  have hbase : l / TensorCore.groupSize * TensorCore.groupSize + TensorCore.groupSize ≤ lanes := by
    simp only [TensorCore.groupSize] at *
    omega
  exact cell_eq ha hb hc hbase hgroup (List.mem_range.mp he)

/-- So do the matrices, whose shapes are checked. -/
theorem multiply_eq : multiply core a b c out = lift (core.execute a b c out) := by
  rw [TensorCore.execute_eq]
  refine lift_bind_of fun _ ha => lift_bind_of fun _ hb => lift_bind_of fun _ hc => ?_
  rw [lift_ite]
  split
  · rfl
  · rename_i hgroups
    have hlanes : leadingCount c % TensorCore.groupSize = 0 := by
      by_contra hne
      exact hgroups (.inr hne)
    rw [cells_eq (TensorCore.checkMatrix_eq_ok.mp ha) (TensorCore.checkMatrix_eq_ok.mp hb)
      (TensorCore.checkMatrix_eq_ok.mp hc) hlanes, ← lift_map]
    rfl

theorem multiplyAccumulate_eq {pc : Nat} {arg : Arg} :
    multiplyAccumulate pc d arg ops = lift (Lockstep.multiplyAccumulate pc d arg ops) := by
  cases arg with
  | tag tag =>
    refine lift_bind_of fun core _ => lift_bind_of fun a _ => lift_bind_of fun b _ =>
      lift_bind_of fun c _ => ?_
    exact map_lift_of multiply_eq _
  | _ => rfl

end

/-! ## Coordinates -/

section

variable {p : Program} {c : Context} {d : DType} {dim : Nat}

theorem axis_eq {x : Point} {i : Nat} (h : x.axis? dim = some i) : axis x dim = .ok i := by
  match dim with
  | 0 | 1 | 2 =>
    cases h
    rfl
  | _ + 3 => cases h

theorem coordinates?_eq {name : String} (hdim : dim < 3) :
    coordinates? c dim name = .ok (c.coordinates? dim name) := by
  obtain ⟨i, hi⟩ := Point.axis?_of_lt hdim
  have hlanes : c.warp.lanes.length = c.warp.laneCount := by
    simp [Warp.lanes, Grid.points, Warp.laneCount]
  have hall : ((List.range c.warp.laneCount).mapM fun lane => do
      let x ← lookup c.warp.lanes lane
      axis x dim) = .ok (c.warp.lanes.map i) := by
    rw [← hlanes]
    refine (mapM_range (f := fun x => pure (i x)) fun lane hlane => ?_).trans List.mapM_pure
    rw [lookup_eq hlane]
    exact axis_eq (hi _)
  unfold coordinates? Context.coordinates?
  rw [funext hi, List.mapM_pure, hall, axis_eq (hi c.point), hi c.point]
  rcases name.toList with _ | ⟨letter, letters⟩
  · rfl
  · by_cases hg : letter = 'g'
    · subst hg
      rfl
    · by_cases hl : letter = 'l'
      · subst hl
        rfl
      · simp [hg, hl]

theorem special_eq {arg : Arg} : special c d arg = lift (c.special d arg) := by
  cases arg with
  | axis dim name =>
    unfold special Context.special
    dsimp only
    rw [lift_ite]
    split
    · rfl
    · rename_i hdim
      rw [coordinates?_eq (Nat.lt_of_not_le hdim)]
      cases c.coordinates? dim name with
      | some ns => exact lift_bind_of fun _ _ => rfl
      | none =>
        dsimp only
        rw [lift_ite]
        rfl
  | _ => rfl

/-! ## Steps -/

theorem gather_eq {u : Uop} (hu : p.get? c.pc = some u) :
    gather p c = lift (Lockstep.gather p u c) := by
  obtain ⟨hpc, rfl⟩ := List.getElem?_eq_some_iff.mp hu
  rw [gather, lookup_eq hpc]
  rfl

theorem produce_eq {u : Uop} {ops : List Operand} (h : OperandsHaveLanes n ops) :
    produce p u d c ops = lift (Lockstep.produce p u d c ops) := by
  unfold produce
  split
  · rename_i hk
    rw [Lockstep.produce, hk]
    exact special_eq
  · rename_i hk
    rw [Lockstep.produce, hk]
    exact map_lift_of (loadValue_eq h) _
  · rename_i hk
    rw [Lockstep.produce, hk]
    exact map_lift_of multiplyAccumulate_eq _
  · rename_i hk
    rw [Lockstep.produce, hk]
    exact map_lift_of arithmetic_eq _
  · rfl

theorem store_eq {ops : List Operand} (h : OperandsHaveLanes n ops) :
    store c ops = (Lockstep.store c ops).map id lift := by
  rw [store, storeWrites_eq h, Lockstep.store]
  cases Lockstep.storeWrites c.pc ops with
  | error f => rfl
  | ok ws => rfl

theorem define_eq {u : Uop} {ops : List Operand} (h : OperandsHaveLanes n ops) :
    define p u c ops = (Lockstep.define p u c ops).map id lift := by
  unfold define Lockstep.define
  cases u.dtype with
  | none => rfl
  | some d =>
    dsimp only
    rw [produce_eq h]
    cases u.kind with
    | loop => rfl
    | _ => cases Lockstep.produce p u d { c with types := c.types.insert c.pc d } ops <;> rfl

theorem execute_eq {u : Uop} (hu : p.get? c.pc = some u) (h : c.Lanewise) :
    execute p u c = (Lockstep.execute p u c).map id lift := by
  unfold execute Lockstep.execute
  rw [gather_eq hu]
  cases hg : Lockstep.gather p u c with
  | error f => cases u.kind <;> rfl
  | ok ops =>
    rw [lift_ok]
    dsimp only
    rw [store_eq (h.operands hg), define_eq (h.operands hg)]
    cases u.kind <;> rfl

/-- Where every value has the lanes of the warp, no number is out of range. -/
theorem step_eq (h : c.Lanewise) : step p c = (Lockstep.step p c).map id lift := by
  unfold step Lockstep.step
  cases hu : p.get? c.pc with
  | none => rfl
  | some u => exact execute_eq (c := c.counted) hu h

end

end Strict

variable {p : Program} {c c' : Context} {o : Option Nat} {f : Fault}

/-- A step that fails keeps the values that there are, or drops one. -/
theorem Breaks.lanewise (h : c.Lanewise) (hb : Breaks p c c' f) : c'.Lanewise := by
  cases hb with
  | unrecorded hu hk hd hg hn ha hr he => exact Context.Lanewise.erase h c.pc
  | _ => exact h

/-- The fault is about operands of different lengths. -/
def Fault.isUneven : Fault → Bool
  | .invalidOperands _ (.laneCounts _) | .invalidOperands _ (.matrixTotal _ _) => true
  | _ => false

theorem Fault.isUneven_of_isData (h : f.isData = true) : f.isUneven = false := by
  unfold isUneven
  split
  · cases h
  · cases h
  · rfl

theorem Refuses.isUneven {n : Nat} {u : Uop} {ops : List Operand} (hops : OperandsHaveLanes n ops)
    (h : Refuses p u c ops f) : f.isUneven = false := by
  cases h with
  | data hf => exact Fault.isUneven_of_isData hf
  | unbound hk ho hv hf =>
    obtain ⟨v, -, -, a, rfl⟩ := hf
    rfl
  | lanes hk hrows hr hne =>
    have hall := (Operand.lanes_scalars hops hrows).2
    exact absurd ((hall _ hr).trans (leadingCount_eq (List.ne_nil_of_mem hr) hall).symm) hne
  | total hk hx hs hl hne =>
    obtain ⟨hcons, hall⟩ := Operand.lanes_vector hops hs
    have hlength := (Operand.lanes_vector hops hx).2 _ hl
    exact absurd (hlength.trans (leadingCount_eq hcons hall).symm) hne
  | _ => rfl

theorem Loop.MissesBound.isUneven {pc i : Nat} {ops : List Operand} (h : MissesBound pc ops i f) :
    f.isUneven = false := by
  rcases h with h | ⟨-, rfl⟩ | rfl
  · exact Fault.isUneven_of_isData h
  · rfl
  · rfl

/-- A step never finds operands of different lengths. -/
theorem Breaks.isUneven (h : c.Lanewise) (hb : Breaks p c c' f) : f.isUneven = false := by
  cases hb with
  | unread hu hk hm hg =>
    obtain ⟨s, -, rfl | rfl⟩ := gather_raises f hg
    · rfl
    · rfl
  | store hu hk hg hw =>
    rcases storeWrites_raises _ _ f hw with h | ⟨-, rfl | rfl⟩
    · exact Fault.isUneven_of_isData h
    · rfl
    · rfl
  | write hu hk hg hw hm =>
    rcases perform_storeWrites_raises hw c.memory f (by rw [hm]) with h | ⟨v, -, -, a, rfl⟩
    · exact Fault.isUneven_of_isData h
    · rfl
  | produce hu hk hd hg hp => exact (refuses_of_produce hp).isUneven (h.operands hg)
  | enter hu hk hd hg hn he => exact (Loop.enter_raises f he).isUneven
  | advance hu hk hd hg hn ha => exact (Loop.advance_raises f ha).isUneven
  | _ => rfl

/-- The context after a step, whether it fails or not. -/
theorem Context.Lanewise.step (hp : p.Accepted) (h : c.Lanewise) : (step p c).1.Lanewise := by
  obtain ⟨c', r, hs⟩ : ∃ c' r, Lockstep.step p c = (c', r) := ⟨_, _, rfl⟩
  rw [hs]
  cases r with
  | ok k => exact (fires_of_step hs).lanewise hp h
  | error f => exact (breaks_of_step hs).lanewise h

theorem step_warp (p : Program) (c : Context) : (step p c).1.warp = c.warp := by
  obtain ⟨c', r, hs⟩ : ∃ c' r, step p c = (c', r) := ⟨_, _, rfl⟩
  rw [hs]
  cases r with
  | ok k => exact (fires_of_step hs).warp_eq
  | error f => cases breaks_of_step hs <;> rfl

/-- In every run of an accepted program all values have the lanes of the warp,
and a vector has an element. So every element that a step looks up by its number
is there, and no step finds operands of different lengths. -/
theorem lanes_and_numbers_in_range {point : Point} {warp : Warp} {buffers : List Buffer}
    {launchValues : List Value} (hp : p.validate = .ok ())
    (h : Arrives p (.start point warp buffers launchValues) o c) :
    (∀ q v, c.values.get? q = some v → v.HasLanes warp.laneCount) ∧
    (∀ q v, (step p c).1.values.get? q = some v → v.HasLanes warp.laneCount) ∧
    Strict.step p c = (step p c).map id Strict.lift ∧
    (∀ length index, (Strict.step p c).2 ≠ .error (.range length index)) ∧
    ∀ op, (∀ counts, (step p c).2 ≠ .error (.invalidOperands op (.laneCounts counts))) ∧
      ∀ m total, (step p c).2 ≠ .error (.invalidOperands op (.matrixTotal m total)) := by
  have hacc : p.Accepted := Program.accepted_of_validate hp
  have hlanes : c.Lanewise := h.lanewise hacc (Context.lanewise_start _ _ _ _)
  have hwarp : c.warp = warp := h.warp
  have hstrict := Strict.step_eq (p := p) hlanes
  have huneven : ∀ f, (step p c).2 = .error f → f.isUneven = false := fun f hf =>
    (breaks_of_step (Prod.ext rfl hf : step p c = ((step p c).1, .error f))).isUneven hlanes
  refine ⟨?_, ?_, hstrict, ?_, ?_⟩
  · rw [← hwarp]
    exact hlanes
  · rw [← hwarp, ← step_warp p c]
    exact hlanes.step hacc
  · intro length index hrange
    rw [hstrict] at hrange
    change Strict.lift (step p c).2 = _ at hrange
    cases hr : (step p c).2 with
    | ok k =>
      rw [hr] at hrange
      cases hrange
    | error f =>
      rw [hr] at hrange
      cases hrange
  · intro op
    constructor
    · intro counts hf
      cases huneven _ hf
    · intro m total hf
      cases huneven _ hf

/-- Both lanes of a warp have loaded their value when `copy` comes to its store. -/
theorem lanes_and_numbers_in_range_copy :
    (∀ v, (run .copy 4 (.start ⟨1, 0, 0⟩ ⟨⟨2, 1, 1⟩⟩
      [⟨.int .int8, #[0, 0]⟩, ⟨.int .int8, #[5, 7]⟩] [])).1.values.get? 3 = some v → v.HasLanes 2) ∧
    ∀ length index, (Strict.step .copy (run .copy 4 (.start ⟨1, 0, 0⟩ ⟨⟨2, 1, 1⟩⟩
      [⟨.int .int8, #[0, 0]⟩, ⟨.int .int8, #[5, 7]⟩] [])).1).2 ≠ .error (.range length index) := by
  have h := @arrives_of_unfinished .copy (.start ⟨1, 0, 0⟩ ⟨⟨2, 1, 1⟩⟩
    [⟨.int .int8, #[0, 0]⟩, ⟨.int .int8, #[5, 7]⟩] []) 3 (by decide)
  obtain ⟨hlanes, -, -, hrange, -⟩ := lanes_and_numbers_in_range (by decide) h
  exact ⟨fun v hv => hlanes 3 v hv, hrange⟩

end Lockstep
