import Lockstep.Proofs.Program.WellFormed
import Lockstep.Proofs.Run.Typed
import Lockstep.Proofs.Step.Compute

/-!
# One value per lane

Whatever a run leaves in the table of values has as many lanes as the warp, in
every element of a vector, and a vector has at least one element.
-/

namespace Lockstep

/-- The value has `n` lanes throughout. -/
def LaneValues.HasLanes (n : Nat) : LaneValues → Prop
  | scalar l => l.length = n
  | vector es => es ≠ [] ∧ ∀ e ∈ es, e.length = n
  | buffer vs => vs.length = n

theorem Warp.length_splat {α : Type} (w : Warp) (a : α) : (w.splat a).length = w.laneCount :=
  List.length_replicate

namespace LaneValues

variable {n : Nat} {v : LaneValues} {l : Lanes} {es : List Lanes}

theorem HasLanes.scalar? (h : v.HasLanes n) (hl : v.scalar? = some l) : l.length = n := by
  cases v with
  | scalar l' =>
    cases hl
    exact h
  | vector es => cases hl
  | buffer vs => cases hl

theorem HasLanes.vector? (h : v.HasLanes n) (hes : v.vector? = some es) :
    es ≠ [] ∧ ∀ e ∈ es, e.length = n := by
  cases v with
  | vector es' =>
    cases hes
    exact h
  | scalar l => cases hes
  | buffer vs => cases hes

theorem HasLanes.buffer? {vs : List View} (h : v.HasLanes n) (hvs : v.buffer? = some vs) :
    vs.length = n := by
  cases v with
  | buffer vs' =>
    cases hvs
    exact h
  | scalar l => cases hvs
  | vector es => cases hvs

theorem HasLanes.element? {j : Nat} (h : v.HasLanes n) (hl : v.element? j = some l) :
    l.length = n := by
  cases v with
  | scalar l' =>
    cases hl
    exact h
  | vector es => exact h.2 l (List.mem_of_getElem? hl)
  | buffer vs => cases hl

end LaneValues

/-! ## Operands -/

/-- All operands have `n` lanes. -/
def OperandsHaveLanes (n : Nat) (ops : List Operand) : Prop :=
  ∀ o ∈ ops, o.values.HasLanes n

section

variable {n : Nat} {ops : List Operand}

/-- An operand that is asked for in some form comes from one of the operands. -/
theorem OperandsHaveLanes.of_bind {α : Type} {i : Nat} {f : LaneValues → Option α} {a : α}
    (h : OperandsHaveLanes n ops) (ha : (ops[i]?.bind fun o => f o.values) = some a) :
    ∃ v : LaneValues, v.HasLanes n ∧ f v = some a := by
  obtain ⟨o, ho, hf⟩ := Option.bind_eq_some_iff.mp ha
  exact ⟨o.values, h o (List.mem_of_getElem? ho), hf⟩

namespace Operand

theorem length_scalar {op : Operation} {i : Nat} {l : Lanes} (h : OperandsHaveLanes n ops)
    (hl : scalar op ops i = .ok l) : l.length = n := by
  obtain ⟨v, hv, hs⟩ := h.of_bind (scalar_eq_ok.mp hl)
  exact hv.scalar? hs

theorem lanes_vector {op : Operation} {i : Nat} {es : List Lanes} (h : OperandsHaveLanes n ops)
    (hes : vector op ops i = .ok es) : es ≠ [] ∧ ∀ e ∈ es, e.length = n := by
  obtain ⟨v, hv, hs⟩ := h.of_bind (vector_eq_ok.mp hes)
  exact hv.vector? hs

theorem length_element {op : Operation} {i j : Nat} {l : Lanes} (h : OperandsHaveLanes n ops)
    (hl : element op ops i j = .ok l) : l.length = n := by
  obtain ⟨v, hv, hs⟩ := h.of_bind (element_eq_ok.mp hl)
  exact hv.element? hs

theorem length_views {a : Access} {v : LaneValues} {vs : List View} (h : v.HasLanes n)
    (hvs : views a v = .ok vs) : vs.length = n :=
  h.buffer? (views_eq_ok.mp hvs)

theorem lanes_coordinates {a : Access} {xs ys : Lanes} (h : OperandsHaveLanes n ops)
    (hxy : coordinates a ops = .ok (xs, ys)) : xs.length = n ∧ ys.length = n := by
  obtain ⟨r, hr⟩ := coordinates_eq_ok.mp hxy
  obtain ⟨v, hv, hs⟩ := h.of_bind hr
  have hall := (hv.vector? hs).2
  exact ⟨hall xs (by simp), hall ys (by simp)⟩

/-- Rows of scalar operands: one for each operand, all of the same length. -/
theorem lanes_scalars {op : Operation} {rows : List Lanes} (h : OperandsHaveLanes n ops)
    (hrows : scalars op ops = .ok rows) :
    rows.length = ops.length ∧ ∀ l ∈ rows, l.length = n := by
  have hall := scalars_eq_ok.mp hrows
  refine ⟨hall.length_eq.symm, fun l hl => ?_⟩
  obtain ⟨k, hk, rfl⟩ := List.mem_iff_getElem.mp hl
  exact (h _ (List.getElem_mem _)).scalar? (hall.get (hall.length_eq ▸ hk) hk)

end Operand

end

/-! ## Computations -/

section

variable {n : Nat} {d : DType} {ops : List Operand} {v : LaneValues}

theorem hasLanes_vector {es : List Lanes} {count : Nat} (hcount : es.length = count)
    (hpos : 0 < count) (hall : ∀ e ∈ es, e.length = n) : (LaneValues.vector es).HasLanes n :=
  ⟨List.ne_nil_of_length_pos (hcount ▸ hpos), hall⟩

theorem count_pos_of_isVector (h : d.isVector = true) : 0 < d.count :=
  Nat.lt_of_succ_lt (of_decide_eq_true h)

theorem hasLanes_cast {pc : Nat} (h : OperandsHaveLanes n ops) (hv : cast pc d ops = .ok v) :
    v.HasLanes n := by
  cases casts_of_cast hv with
  | repack hd ho hn =>
    subst ho
    exact h _ List.mem_cons_self
  | pack hd hn hr =>
    obtain ⟨hlen, hall⟩ := Operand.lanes_scalars h hr
    exact hasLanes_vector (hlen.trans hn) (count_pos_of_isVector hd) hall
  | convert hd hl hr => exact (length_of_mapM hr).trans (Operand.length_scalar h hl)
  | keep hd hl he => exact Operand.length_scalar h hl

theorem length_loadElement {m : Memory} {views : List View} {j : Nat} {l : Lanes}
    (hviews : views.length = n) (h : OperandsHaveLanes n ops)
    (hl : loadElement m views ops j = .ok l) : l.length = n := by
  obtain ⟨offsets, hoffsets, hl⟩ := bind_eq_ok.mp hl
  have hlen := Operand.length_element h hoffsets
  split at hl
  · obtain ⟨gate, hgate, hl⟩ := bind_eq_ok.mp hl
    obtain ⟨default, hdefault, hl⟩ := bind_eq_ok.mp hl
    have hgate' := Operand.length_element h hgate
    have hdefault' := Operand.length_element h hdefault
    rw [length_of_mapM hl]
    simp [hviews, hlen, hgate', hdefault']
  · rw [length_of_mapM hl]
    simp [hviews, hlen]

theorem lanes_loadElements {m : Memory} {views : List View} {j count : Nat} {es : List Lanes}
    (hviews : views.length = n) (h : OperandsHaveLanes n ops)
    (hes : loadElements m views ops j count = .ok es) :
    es.length = count ∧ ∀ e ∈ es, e.length = n := by
  induction count generalizing j es with
  | zero =>
    cases hes
    exact ⟨rfl, nofun⟩
  | succ count ih =>
    obtain ⟨l, hl, hes⟩ := bind_eq_ok.mp hes
    obtain ⟨r, hr, hes⟩ := bind_eq_ok.mp hes
    cases hes
    obtain ⟨hlen, hall⟩ := ih hr
    refine ⟨congrArg (· + 1) hlen, ?_⟩
    intro e he
    rcases List.mem_cons.mp he with rfl | he
    · exact length_loadElement hviews h hl
    · exact hall e he

theorem lanes_loadImage {m : Memory} {views : List View} {height width : Nat} {xs ys : Lanes}
    {es : List Lanes} (hviews : views.length = n) (hxs : xs.length = n) (hys : ys.length = n)
    (hes : m.loadImage views height width xs ys = .ok es) :
    es.length = Memory.channels ∧ ∀ e ∈ es, e.length = n := by
  refine ⟨by simpa using length_of_mapM hes, ?_⟩
  intro e he
  obtain ⟨c, -, hc⟩ := mem_of_mapM hes he
  rw [length_of_mapM hc]
  simp [hviews, hxs, hys]

theorem hasLanes_load {m : Memory} (h : OperandsHaveLanes n ops) (hload : load m d ops = .ok v) :
    v.HasLanes n := by
  have hviews {o : Operand} {r : List Operand} {views : List View} (ho : ops = o :: r)
      (hv : o.values.buffer? = some views) : views.length = n := by
    subst ho
    exact (h o List.mem_cons_self).buffer? hv
  cases loads_of_load hload with
  | texels ho hv hs hn hc he =>
    obtain ⟨hxs, hys⟩ := Operand.lanes_coordinates h hc
    obtain ⟨hcount, hall⟩ := lanes_loadImage (hviews ho hv) hxs hys he
    exact hasLanes_vector hcount (by decide) hall
  | vector ho hv hs hd he =>
    obtain ⟨hcount, hall⟩ := lanes_loadElements (hviews ho hv) h he
    exact hasLanes_vector hcount (count_pos_of_isVector hd) hall
  | scalar ho hv hs hd hl => exact length_loadElement (hviews ho hv) h hl

theorem hasLanes_pick {pc : Nat} {arg : Arg} (h : OperandsHaveLanes n ops)
    (hv : pick pc arg ops = .ok v) : v.HasLanes n := by
  obtain ⟨k, l, -, hl, rfl⟩ := element_of_pick hv
  obtain ⟨v, hv, hes⟩ := h.of_bind (f := fun v => v.vector?.bind (·[k]?)) hl
  obtain ⟨es, hes, hget⟩ := Option.bind_eq_some_iff.mp hes
  exact (hv.vector? hes).2 l (List.mem_of_getElem? hget)

/-- The result of a tensor core has a value for each lane of the sum. -/
theorem TensorCore.lanes_execute {core : TensorCore} {a b c es : List Lanes} {out : ScalarType}
    (hc : c ≠ [] ∧ ∀ e ∈ c, e.length = n) (hes : core.execute a b c out = .ok es) :
    es.length = core.sumElements ∧ ∀ e ∈ es, e.length = n := by
  obtain ⟨l, r, rfl⟩ := List.exists_cons_of_ne_nil hc.1
  have hl : l.length = n := hc.2 l List.mem_cons_self
  obtain ⟨-, -, hes⟩ := bind_eq_ok.mp hes
  obtain ⟨-, -, hes⟩ := bind_eq_ok.mp hes
  obtain ⟨-, -, hes⟩ := bind_eq_ok.mp hes
  dsimp only at hes
  split at hes
  · cases hes
  · obtain ⟨rows, hrows, hes⟩ := bind_eq_ok.mp hes
    have hlen : rows.length = l.length := by simpa using length_of_mapM hrows
    cases hes
    refine ⟨by simp, ?_⟩
    intro e he
    obtain ⟨i, -, rfl⟩ := List.mem_map.mp he
    rw [List.length_map, hlen, hl]

theorem hasLanes_multiplyAccumulate {pc : Nat} {arg : Arg} (h : OperandsHaveLanes n ops)
    (hv : multiplyAccumulate pc d arg ops = .ok v) : v.HasLanes n := by
  obtain ⟨tag, core, a, b, c, es, -, -, -, -, hc, hes, rfl⟩ := core_of_multiplyAccumulate hv
  obtain ⟨hcount, hall⟩ := TensorCore.lanes_execute (Operand.lanes_vector h hc) hes
  exact hasLanes_vector hcount (by cases core <;> decide) hall

theorem hasLanes_arithmetic {pc : Nat} {arg : Arg} (h : OperandsHaveLanes n ops)
    (hne : ops ≠ []) (hv : arithmetic pc d arg ops = .ok v) : v.HasLanes n := by
  obtain ⟨op, rows, l, -, hrows, hl, rfl⟩ := rows_of_arithmetic hv
  obtain ⟨hlen, hall⟩ := Operand.lanes_scalars h hrows
  have hrows : rows ≠ [] := by
    rintro rfl
    exact hne (List.length_eq_zero_iff.mp hlen.symm)
  have hlength := length_of_mapM hl
  rw [List.length_range, leadingCount_eq hrows hall] at hlength
  exact hlength

end

/-- Every entry of the table has as many lanes as the warp. -/
def Context.Lanewise (c : Context) : Prop :=
  ∀ q v, c.values.get? q = some v → v.HasLanes c.warp.laneCount

variable {p : Program} {c d : Context}

theorem Context.Lanewise.operands (h : c.Lanewise) {u : Uop} {ops : List Operand}
    (hg : gather p u c = .ok ops) : OperandsHaveLanes c.warp.laneCount ops := by
  intro o ho
  obtain ⟨s, -, hs⟩ := mem_of_mapM hg ho
  exact h s o.values (operand_eq_ok.mp hs).1

/-- There are three axes. -/
theorem Point.axis?_of_lt {dim : Nat} (h : dim < 3) :
    ∃ i : Point → Nat, ∀ x : Point, x.axis? dim = pure (i x) := by
  match dim, h with
  | 0, _ => exact ⟨Point.x, fun _ => rfl⟩
  | 1, _ => exact ⟨Point.y, fun _ => rfl⟩
  | 2, _ => exact ⟨Point.z, fun _ => rfl⟩

theorem Context.length_coordinates {dim : Nat} {name : String} {ns : List Nat}
    (h : c.coordinates? dim name = some ns) : ns.length = c.warp.laneCount := by
  unfold Context.coordinates? at h
  split at h
  · obtain ⟨i, -, rfl⟩ := Option.map_eq_some_iff.mp h
    exact c.warp.length_splat i
  · rw [length_of_mapM_some h]
    simp [Warp.lanes, Grid.points, Warp.laneCount]
  · cases h

namespace Context

theorem Lanewise.insert (h : c.Lanewise) {q : Nat} {v : LaneValues}
    (hv : v.HasLanes c.warp.laneCount) :
    Lanewise { c with values := c.values.insert q v } := by
  intro q' v' hv'
  by_cases he : q' = q
  · subst he
    change (c.values.insert q' v).get? q' = some v' at hv'
    rw [Table.get?_insert_self] at hv'
    cases hv'
    exact hv
  · change (c.values.insert q v).get? q' = some v' at hv'
    rw [Table.get?_insert_of_ne _ he] at hv'
    exact h q' v' hv'

theorem Lanewise.define (h : c.Lanewise) {v : LaneValues} (hv : v.HasLanes c.warp.laneCount) :
    (c.define v).Lanewise :=
  h.insert hv

theorem Lanewise.erase (h : c.Lanewise) (q : Nat) :
    Lanewise { c with values := c.values.erase q } := by
  intro q' v hv
  change (c.values.erase q).get? q' = some v at hv
  by_cases he : q' = q
  · subst he
    rw [Table.get?_erase_self] at hv
    cases hv
  · rw [Table.get?_erase_of_ne _ he] at hv
    exact h q' v hv

theorem lanewise_start (point : Point) (warp : Warp) (buffers : List Buffer)
    (launchValues : List Value) : (Context.start point warp buffers launchValues).Lanewise := by
  intro q v hv
  cases hv

end Context

/-- A producing instruction leaves a value on every lane. -/
theorem Makes.lanewise {u : Uop} {t : DType} {ops : List Operand} (h : c.Lanewise)
    (hops : OperandsHaveLanes c.warp.laneCount ops) (hne : u.kind = .alu → ops ≠ [])
    (hm : Makes p u t c ops d) : d.Lanewise := by
  cases hm with
  | global hk ht hb => exact h.define (v := .buffer _) (c.warp.length_splat _)
  | scratch hk ht ha => exact h.define (v := .buffer _) (c.warp.length_splat _)
  | launchValue hk hv hw => exact h.define (v := .scalar _) (c.warp.length_splat _)
  | coordinate hk ha hn hl =>
    exact h.define (v := .scalar _) ((length_of_mapM hl).trans (Context.length_coordinates hn))
  | nameless hk hc => exact h
  | literal hk ha hv =>
    refine h.define ?_
    split
    · rename_i hvec
      refine hasLanes_vector List.length_replicate (count_pos_of_isVector hvec) ?_
      intro e he
      rw [List.eq_of_mem_replicate he]
      exact c.warp.length_splat _
    · exact c.warp.length_splat _
  | cast hk hv => exact h.define (hasLanes_cast hops hv)
  | load hk hv => exact h.define (hasLanes_load hops hv)
  | carry hk hs ho =>
    have hlanes := hops _ (List.mem_of_getElem? (Operand.require_eq_ok.mp ho))
    exact (h.insert hlanes).insert hlanes
  | pick hk hv => exact h.define (hasLanes_pick hops hv)
  | wmma hk hv => exact h.define (hasLanes_multiplyAccumulate hops hv)
  | alu hk hv => exact h.define (hasLanes_arithmetic hops (hne hk) hv)

/-- Arithmetic has operands. -/
theorem Program.Accepted.operands_ne_nil (hp : p.Accepted) {u : Uop} {ops : List Operand}
    (hu : p.get? c.pc = some u) (hg : gather p u c = .ok ops) (hk : u.kind = .alu) : ops ≠ [] := by
  rintro rfl
  have harity := hp.arity hu
  rw [← length_of_mapM hg] at harity
  simp [Program.takes, hk] at harity

theorem Fires.lanewise {k : Control} (hp : p.Accepted) (h : c.Lanewise) (hf : Fires p c d k) :
    d.Lanewise := by
  cases hf with
  | @produce u t ops c' hu hk hd hg hm =>
    exact Makes.lanewise (c := c.counted.declared t) h (h.operands hg) (hp.operands_ne_nil hu hg)
      (makes_of_produce hk hm)
  | enter hu hk hd hg hn hv hw => exact Context.Lanewise.define h (c.warp.length_splat _)
  | again hu hk hd hg hn hi hv hr =>
    exact Context.Lanewise.define h ((length_of_mapM hi).trans (h _ _ hn))
  | leave hu hk hd hg hn hi hv hr he => exact Context.Lanewise.erase h c.pc
  | _ => exact h

theorem Steps.lanewise (hp : p.Accepted) (h : c.Lanewise) (hs : Steps p c d) : d.Lanewise := by
  obtain ⟨c', k, hs, hne, rfl⟩ := hs
  intro q v hv
  rw [Context.follow_values] at hv
  rw [Context.follow_warp]
  exact (fires_of_step hs).lanewise hp h q v hv

/-- Wherever a run arrives, every entry has the lanes of the warp. -/
theorem Arrives.lanewise {c₀ : Context} {o : Option Nat} (hp : p.Accepted) (h : Arrives p c₀ o c)
    (h₀ : c₀.Lanewise) : c.Lanewise := by
  induction h with
  | start => exact h₀
  | step h hs ih => exact hs.lanewise hp ih

end Lockstep
