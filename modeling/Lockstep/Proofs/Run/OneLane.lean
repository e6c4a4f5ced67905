import Lockstep.Proofs.Run.Lanes
import Mathlib.Logic.Function.Basic

/-!
# One lane of an instruction

What constants, arithmetic, choices of an element and loads of scalars do, told for
a single lane as if it ran alone. The step of a warp does this on each of its lanes.
-/

namespace Lockstep

/-- What a value holds on one lane. -/
inductive LaneValue where
  | scalar (x : Value)
  | vector (xs : List Value)
  | buffer (view : View)
  deriving DecidableEq

namespace LaneValue

def scalar? : LaneValue → Option Value
  | scalar x => some x
  | _ => none

def vector? : LaneValue → Option (List Value)
  | vector xs => some xs
  | _ => none

def buffer? : LaneValue → Option View
  | buffer view => some view
  | _ => none

/-- Element `k` of a vector; a scalar stands for each of its elements. -/
def element? (k : Nat) : LaneValue → Option Value
  | scalar x => some x
  | vector xs => xs[k]?
  | buffer _ => none

end LaneValue

/-- What the value holds on lane `j`, if it has this lane throughout. -/
def LaneValues.lane? (j : Nat) : LaneValues → Option LaneValue
  | scalar l => l[j]?.map .scalar
  | vector es => (es.mapM fun e => e[j]?).map .vector
  | buffer vs => vs[j]?.map .buffer

/-- What the table of values holds for a position on lane `j`. -/
def Context.lane? (c : Context) (j q : Nat) : Option LaneValue :=
  (c.values.get? q).bind (·.lane? j)

/-! ## An instruction on a lane -/

/-- The literal, in every element of a vector. -/
def Literal.onLane? (l : Literal) (d : DType) : Option LaneValue :=
  (l.toValue d.element).toOption.map fun x =>
    if d.isVector then .vector (List.replicate d.count x) else .scalar x

def AluOp.onLane? (op : AluOp) (d : DType) (args : List LaneValue) : Option LaneValue := do
  let xs ← args.mapM LaneValue.scalar?
  (Alu.execute op d.element xs).toOption.map .scalar

/-- Loads a scalar. A fourth operand makes the load gated: with the gate shut the
lane takes the default and touches no memory. -/
def Memory.onLane? (m : Memory) (args : List LaneValue) : Option LaneValue := do
  let view ← args[0]?.bind (·.buffer?)
  let i ← args[1]?.bind (·.element? 0)
  if args.length = 4 then
    let gate ← args[2]?.bind (·.element? 0)
    let default ← args[3]?.bind (·.element? 0)
    if gate.truthy then (m.loadLane view i 0).toOption.map .scalar else some (.scalar default)
  else (m.loadLane view i 0).toOption.map .scalar

def pickOnLane? (i : Nat) (args : List LaneValue) : Option LaneValue := do
  let xs ← args[0]?.bind (·.vector?)
  xs[i]?.map .scalar

/-- What the instruction leaves on a lane, from what it finds there at its value
operands. -/
def Uop.onLane? (u : Uop) (m : Memory) (args : List LaneValue) : Option LaneValue := do
  let d ← u.dtype
  match u.kind, u.arg with
  | .const, .literal l => l.onLane? d
  | .alu, .operation op => op.onLane? d args
  | .gep, .index i => pickOnLane? i args
  | .load, _ => m.onLane? args
  | _, _ => none

/-- What a lane on its own knows of the values of a program. -/
abbrev LaneTable := Nat → Option LaneValue

/-- One instruction on one lane, from what the lane knows. -/
def Program.onLane? (p : Program) (m : Memory) (table : LaneTable) (q : Nat) :
    Option LaneTable := do
  let u ← p.get? q
  let a ← u.onLane? m (← (p.valueOperands u).mapM table)
  return Function.update table q (some a)

/-- A constant, an arithmetic operation, a choice of an element or a load of a
scalar. -/
def Uop.ComputesByLane (u : Uop) : Prop :=
  u.kind = .const ∨ u.kind = .alu ∨ u.kind = .gep ∨
    (u.kind = .load ∧ ∀ d ∈ u.dtype, d.isVector = false)

instance (u : Uop) : Decidable u.ComputesByLane :=
  inferInstanceAs (Decidable (u.kind = .const ∨ u.kind = .alu ∨ u.kind = .gep ∨
    (u.kind = .load ∧ ∀ d ∈ u.dtype, d.isVector = false)))

/-! ## Lanes of values -/

namespace LaneValues

variable {j n : Nat} {v : LaneValues} {a : LaneValue}

/-- A value has something on each of its lanes. -/
theorem HasLanes.lane? (h : v.HasLanes n) (hj : j < n) : ∃ a, v.lane? j = some a := by
  have hget : ∀ {α : Type} {l : List α}, l.length = n → ∃ x, l[j]? = some x := by
    intro α l hl
    exact ⟨l[j], List.getElem?_eq_getElem (hl ▸ hj)⟩
  cases v with
  | scalar l =>
    obtain ⟨x, hx⟩ := hget h
    exact ⟨.scalar x, by rw [LaneValues.lane?, hx]; rfl⟩
  | vector es =>
    obtain ⟨xs, hxs⟩ := mapM_some_of_forall fun e he => hget (h.2 e he)
    exact ⟨.vector xs, by rw [LaneValues.lane?, hxs]; rfl⟩
  | buffer vs =>
    obtain ⟨view, hview⟩ := hget h
    exact ⟨.buffer view, by rw [LaneValues.lane?, hview]; rfl⟩

theorem lane?_scalar {l : Lanes} (h : v.scalar? = some l) (ha : v.lane? j = some a) :
    ∃ x, l[j]? = some x ∧ a = .scalar x := by
  cases v with
  | scalar l' =>
    cases h
    obtain ⟨x, hx, rfl⟩ := Option.map_eq_some_iff.mp ha
    exact ⟨x, hx, rfl⟩
  | vector es => cases h
  | buffer vs => cases h

theorem lane?_vector {es : List Lanes} (h : v.vector? = some es) (ha : v.lane? j = some a) :
    ∃ xs, List.Forall₂ (fun e x => e[j]? = some x) es xs ∧ a = .vector xs := by
  cases v with
  | vector es' =>
    cases h
    obtain ⟨xs, hxs, rfl⟩ := Option.map_eq_some_iff.mp ha
    exact ⟨xs, mapM_eq_some.mp hxs, rfl⟩
  | scalar l => cases h
  | buffer vs => cases h

theorem lane?_buffer {vs : List View} (h : v.buffer? = some vs) (ha : v.lane? j = some a) :
    ∃ view, vs[j]? = some view ∧ a = .buffer view := by
  cases v with
  | buffer vs' =>
    cases h
    obtain ⟨view, hview, rfl⟩ := Option.map_eq_some_iff.mp ha
    exact ⟨view, hview, rfl⟩
  | scalar l => cases h
  | vector es => cases h

/-- Element `k` of lane `j` is lane `j` of element `k`. -/
theorem getElem?_of_lanes {es : List Lanes} {xs : List Value} {k : Nat} {l : Lanes}
    (h : List.Forall₂ (fun e x => e[j]? = some x) es xs) (hl : es[k]? = some l) :
    ∃ x, l[j]? = some x ∧ xs[k]? = some x := by
  obtain ⟨hk, rfl⟩ := List.getElem?_eq_some_iff.mp hl
  have hk' : k < xs.length := h.length_eq ▸ hk
  exact ⟨xs[k], h.get hk hk', List.getElem?_eq_getElem hk'⟩

theorem lane?_element {k : Nat} {l : Lanes} (h : v.element? k = some l)
    (ha : v.lane? j = some a) : ∃ x, l[j]? = some x ∧ a.element? k = some x := by
  cases v with
  | scalar l' =>
    cases h
    obtain ⟨x, hx, rfl⟩ := lane?_scalar rfl ha
    exact ⟨x, hx, rfl⟩
  | vector es =>
    obtain ⟨xs, hxs, rfl⟩ := lane?_vector rfl ha
    exact getElem?_of_lanes hxs h
  | buffer vs => cases h

end LaneValues

/-! ## Lanes of operands -/

/-- What the operands hold on lane `j`. -/
def OnLane (j : Nat) (ops : List Operand) (args : List LaneValue) : Prop :=
  List.Forall₂ (fun o a => o.values.lane? j = some a) ops args

section

variable {j n : Nat} {ops : List Operand} {args : List LaneValue} {d : DType} {v : LaneValues}

theorem OperandsHaveLanes.onLane (h : OperandsHaveLanes n ops) (hj : j < n) :
    ∃ args, OnLane j ops args := by
  obtain ⟨args, hargs⟩ := mapM_some_of_forall fun o ho => (h o ho).lane? hj
  exact ⟨args, mapM_eq_some.mp hargs⟩

/-- An instruction finds on a lane what the table of values holds there. -/
theorem OnLane.of_gather {p : Program} {c : Context} {u : Uop} (hg : gather p u c = .ok ops)
    (h : OnLane j ops args) : (p.valueOperands u).mapM (c.lane? j) = some args := by
  rw [mapM_eq_some]
  unfold gather at hg
  rw [mapM_eq_ok] at hg
  generalize p.valueOperands u = qs at hg
  induction hg generalizing args with
  | nil =>
    cases h
    exact .nil
  | @cons q o qs os ho _ ih =>
    obtain ⟨a, as, ha, has, rfl⟩ := List.forall₂_cons_left_iff.mp h
    refine .cons ?_ (ih has)
    rw [Context.lane?, (operand_eq_ok.mp ho).1]
    exact ha

/-- An operand that is asked for in some form is on the lane at the same place. -/
theorem OnLane.of_bind {α : Type} {i : Nat} {f : LaneValues → Option α} {b : α}
    (h : OnLane j ops args) (hb : (ops[i]?.bind fun o => f o.values) = some b) :
    ∃ (v : LaneValues) (a : LaneValue), args[i]? = some a ∧ v.lane? j = some a ∧ f v = some b := by
  obtain ⟨o, ho, hf⟩ := Option.bind_eq_some_iff.mp hb
  obtain ⟨hi, rfl⟩ := List.getElem?_eq_some_iff.mp ho
  have hi' : i < args.length := h.length_eq ▸ hi
  exact ⟨_, args[i], List.getElem?_eq_getElem hi', h.get hi hi', hf⟩

theorem OnLane.element {op : Operation} {i k : Nat} {l : Lanes} (h : OnLane j ops args)
    (hl : Operand.element op ops i k = .ok l) :
    ∃ x, l[j]? = some x ∧ args[i]?.bind (·.element? k) = some x := by
  obtain ⟨v, a, hi, ha, hv⟩ := h.of_bind (Operand.element_eq_ok.mp hl)
  obtain ⟨x, hx, hax⟩ := LaneValues.lane?_element hv ha
  refine ⟨x, hx, ?_⟩
  rw [hi]
  exact hax

/-- Of rows of scalars a lane gets one argument each. -/
theorem OnLane.scalars {op : Operation} {rows : List Lanes} (h : OnLane j ops args)
    (hrows : Operand.scalars op ops = .ok rows) :
    args.mapM LaneValue.scalar? = some (laneArguments rows j) := by
  rw [mapM_eq_some]
  rw [Operand.scalars_eq_ok] at hrows
  induction hrows generalizing args with
  | nil =>
    cases h
    exact .nil
  | @cons o l os ls hl _ ih =>
    obtain ⟨a, as, ha, has, rfl⟩ := List.forall₂_cons_left_iff.mp h
    obtain ⟨x, hx, rfl⟩ := LaneValues.lane?_scalar hl ha
    rw [laneArguments, List.filterMap_cons, hx]
    exact .cons rfl (ih has)

/-! ## Computations on a lane -/

theorem toOption_of_ok {ε α : Type} {x : Except ε α} {a : α} (h : x = .ok a) :
    x.toOption = some a := by
  rw [h]
  rfl

theorem lane?_literal {w : Warp} {l : Literal} {x : Value} (hj : j < w.laneCount)
    (hx : l.toValue d.element = .ok x) :
    (if d.isVector then LaneValues.vector (List.replicate d.count (w.splat x))
      else .scalar (w.splat x)).lane? j = l.onLane? d := by
  have hget : (w.splat x)[j]? = some x := List.getElem?_replicate_of_lt hj
  rw [Literal.onLane?, toOption_of_ok hx]
  split
  · have hall : (List.replicate d.count (w.splat x)).mapM (fun e => e[j]?) =
        some (List.replicate d.count x) := by
      rw [mapM_eq_some, List.forall₂_iff_get]
      refine ⟨by simp, ?_⟩
      intro i _ _
      simpa using hget
    rw [LaneValues.lane?, hall]
    rfl
  · rw [LaneValues.lane?, hget]

theorem lane?_arithmetic {pc : Nat} {arg : Arg} (h : OnLane j ops args)
    (hops : OperandsHaveLanes n ops) (hne : ops ≠ []) (hj : j < n)
    (hv : arithmetic pc d arg ops = .ok v) :
    ∃ op a, arg = .operation op ∧ v.lane? j = some a ∧ op.onLane? d args = some a := by
  obtain ⟨op, rows, l, rfl, hrows, hl, rfl⟩ := rows_of_arithmetic hv
  obtain ⟨hlen, hall⟩ := Operand.lanes_scalars hops hrows
  have hrowsne : rows ≠ [] := by
    rintro rfl
    exact hne (List.length_eq_zero_iff.mp hlen.symm)
  rw [leadingCount_eq hrowsne hall] at hl
  obtain ⟨x, hx, hexec⟩ := getElem?_of_mapM hl (List.getElem?_range hj)
  refine ⟨op, .scalar x, rfl, ?_, ?_⟩
  · rw [LaneValues.lane?, hx]
    rfl
  · rw [AluOp.onLane?, h.scalars hrows]
    simp [toOption_of_ok hexec]

theorem lane?_pick {pc : Nat} {arg : Arg} (h : OnLane j ops args)
    (hv : pick pc arg ops = .ok v) :
    ∃ i a, arg = .index i ∧ v.lane? j = some a ∧ pickOnLane? i args = some a := by
  obtain ⟨i, l, rfl, hl, rfl⟩ := element_of_pick hv
  obtain ⟨w, b, hb, hwb, hw⟩ := h.of_bind (f := fun v => v.vector?.bind (·[i]?)) hl
  obtain ⟨es, hes, hget⟩ := Option.bind_eq_some_iff.mp hw
  obtain ⟨xs, hxs, rfl⟩ := LaneValues.lane?_vector hes hwb
  obtain ⟨x, hx, hxi⟩ := LaneValues.getElem?_of_lanes hxs hget
  refine ⟨i, .scalar x, rfl, ?_, ?_⟩
  · rw [LaneValues.lane?, hx]
    rfl
  · simp [pickOnLane?, hb, LaneValue.vector?, hxi]

/-- A load of a scalar addresses its buffer linearly, an image having four
channels to load. -/
theorem lane?_load {m : Memory} (h : OnLane j ops args) (hd : d.isVector = false)
    (hv : load m d ops = .ok v) : ∃ a, v.lane? j = some a ∧ m.onLane? args = some a := by
  cases loads_of_load hv with
  | texels ho hb hs hn hc he =>
    rw [DType.isVector, hn] at hd
    cases hd
  | vector ho hb hs hd' he => cases hd.symm.trans hd'
  | @scalar o r views l ho hb hs _ hl =>
    have hlength : ops.length = args.length := h.length_eq
    have htarget : (ops[0]?.bind fun o => o.values.buffer?) = some views := by
      rw [ho]
      exact hb
    obtain ⟨w, b, hb₀, hwb, hw⟩ := h.of_bind htarget
    obtain ⟨view, hview, rfl⟩ := LaneValues.lane?_buffer hw hwb
    obtain ⟨offsets, hoffsets, hl⟩ := bind_eq_ok.mp hl
    obtain ⟨i, hi, hb₁⟩ := h.element hoffsets
    have hat : (views.zip offsets)[j]? = some (view, i) :=
      List.getElem?_zip_eq_some.mpr ⟨hview, hi⟩
    split at hl
    · rename_i hfour
      obtain ⟨gate, hgate, hl⟩ := bind_eq_ok.mp hl
      obtain ⟨default, hdefault, hl⟩ := bind_eq_ok.mp hl
      obtain ⟨g, hg, hb₂⟩ := h.element hgate
      obtain ⟨e, he, hb₃⟩ := h.element hdefault
      have hall : ((views.zip offsets).zip (gate.zip default))[j]? = some ((view, i), (g, e)) :=
        List.getElem?_zip_eq_some.mpr ⟨hat, List.getElem?_zip_eq_some.mpr ⟨hg, he⟩⟩
      obtain ⟨x, hx, hload⟩ := getElem?_of_mapM hl hall
      refine ⟨.scalar x, ?_, ?_⟩
      · rw [LaneValues.lane?, hx]
        rfl
      · dsimp only at hload
        rw [hlength] at hfour
        simp only [Memory.onLane?, hb₀, hb₁, hb₂, hb₃, hfour, Option.bind_eq_bind,
          Option.bind_some, LaneValue.buffer?, if_true]
        split at hload
        · rename_i hopen
          rw [if_pos hopen]
          exact congrArg _ (toOption_of_ok hload)
        · rename_i hshut
          cases hload
          rw [if_neg hshut]
    · rename_i hfour
      obtain ⟨x, hx, hload⟩ := getElem?_of_mapM hl hat
      refine ⟨.scalar x, ?_, ?_⟩
      · rw [LaneValues.lane?, hx]
        rfl
      · rw [hlength] at hfour
        simp only [Memory.onLane?, hb₀, hb₁, hfour, Option.bind_eq_bind, Option.bind_some,
          LaneValue.buffer?, if_false]
        exact congrArg _ (toOption_of_ok hload)

end

/-! ## Steps -/

section

variable {p : Program} {u : Uop} {c d : Context}

theorem Context.lane?_insert_self {j q : Nat} {v : LaneValues}
    (h : d.values = c.values.insert q v) : d.lane? j q = v.lane? j := by
  rw [lane?, h, Table.get?_insert_self]
  rfl

theorem Context.lane?_insert_of_ne {j q q' : Nat} {v : LaneValues}
    (h : d.values = c.values.insert q v) (hne : q' ≠ q) : d.lane? j q' = c.lane? j q' := by
  rw [lane?, h, Table.get?_insert_of_ne _ hne]
  rfl

theorem Uop.ComputesByLane.changesMemory (h : u.ComputesByLane) :
    u.kind.changesMemory = false := by
  rcases h with hk | hk | hk | ⟨hk, -⟩ <;> rw [hk] <;> rfl

theorem Uop.ComputesByLane.isProducer (h : u.ComputesByLane) : u.kind.isProducer = true := by
  rcases h with hk | hk | hk | ⟨hk, -⟩ <;> rw [hk] <;> rfl

/-- The value that an instruction makes is on each lane what the lane alone makes
of its operands. -/
theorem Makes.onLane {t : DType} {ops : List Operand} {args : List LaneValue} {j : Nat}
    (hk : u.ComputesByLane) (ht : u.dtype = some t) (hne : u.kind = .alu → ops ≠ [])
    (hops : OperandsHaveLanes c.warp.laneCount ops) (hj : j < c.warp.laneCount)
    (h : OnLane j ops args) (hm : Makes p u t c ops d) :
    ∃ v a, d = c.define v ∧ v.lane? j = some a ∧ u.onLane? c.memory args = some a := by
  cases hm with
  | @literal l x hkind ha hv =>
    have hconst : u.kind = .const := by
      rcases hkind with hkind | hkind
      · exact hkind
      · simp [Uop.ComputesByLane, hkind] at hk
    obtain ⟨a, hlane⟩ : ∃ a, l.onLane? t = some a := by
      rw [Literal.onLane?, toOption_of_ok hv]
      exact ⟨_, rfl⟩
    refine ⟨_, a, rfl, (lane?_literal hj hv).trans hlane, ?_⟩
    simp [Uop.onLane?, ht, hconst, ha, hlane]
  | alu hkind hv =>
    obtain ⟨op, a, ha, hlane, hop⟩ := lane?_arithmetic h hops (hne hkind) hj hv
    refine ⟨_, a, rfl, hlane, ?_⟩
    simp [Uop.onLane?, ht, hkind, ha, hop]
  | pick hkind hv =>
    obtain ⟨i, a, ha, hlane, hpick⟩ := lane?_pick h hv
    refine ⟨_, a, rfl, hlane, ?_⟩
    simp [Uop.onLane?, ht, hkind, ha, hpick]
  | load hkind hv =>
    have hscalar : t.isVector = false := by
      simp only [Uop.ComputesByLane, hkind, reduceCtorEq, false_or, true_and] at hk
      exact hk t ht
    obtain ⟨a, hlane, hload⟩ := lane?_load h hscalar hv
    refine ⟨_, a, rfl, hlane, ?_⟩
    simp [Uop.onLane?, ht, hkind, hload]
  | _ => simp_all [Uop.ComputesByLane]

/-- A step leaves on every lane what the lane alone makes of what it knows. -/
theorem Steps.onLane (hp : p.Accepted) (hlanes : c.Lanewise) (h : Steps p c d)
    (hu : p.get? c.pc = some u) (hk : u.ComputesByLane) :
    d.pc = c.pc + 1 ∧ d.memory = c.memory ∧ (∀ q ≠ c.pc, d.values.get? q = c.values.get? q) ∧
      ∀ j < c.warp.laneCount, ∀ table : LaneTable, (∀ q < c.pc, c.lane? j q = table q) →
        ∃ table', p.onLane? c.memory table c.pc = some table' ∧
          ∀ q < d.pc, d.lane? j q = table' q := by
  obtain ⟨t, ops, d', ht, hg, hm, hfollow⟩ := h.makes hu hk.isProducer
  have hops : OperandsHaveLanes c.warp.laneCount ops := hlanes.operands hg
  have hnext : d.pc = c.pc + 1 := by
    rw [hfollow]
    exact congrArg (· + 1) hm.pc_eq
  refine ⟨hnext, h.memory hu hk.changesMemory, ?_, ?_⟩
  · intro q hq
    refine h.values_eq hu ?_
    rintro (rfl | ⟨hphi, -⟩)
    · exact hq rfl
    · simp [Uop.ComputesByLane, hphi] at hk
  intro j hj table htable
  obtain ⟨args, hargs⟩ := hops.onLane hj
  obtain ⟨v, a, hd, hv, ha⟩ := Makes.onLane (c := c.counted.declared t) hk ht
    (hp.operands_ne_nil hu hg) hops hj hargs hm
  have hread : (p.valueOperands u).mapM table = some args := by
    rw [← hargs.of_gather hg]
    refine mapM_congr fun q hq => ?_
    exact (htable q (hp.of_mem_valueOperands hu hq).1).symm
  refine ⟨Function.update table c.pc (some a), ?_, ?_⟩
  · rw [Program.onLane?, hu]
    simp only [Option.bind_eq_bind, Option.bind_some, hread]
    rw [show u.onLane? c.memory args = some a from ha]
    rfl
  · intro q hq
    rw [hnext] at hq
    have hvalues : d.values = c.values.insert c.pc v := by
      rw [hfollow, hd]
      rfl
    by_cases hqc : q = c.pc
    · subst hqc
      rw [Context.lane?_insert_self hvalues, hv, Function.update_self]
    · rw [Context.lane?_insert_of_ne hvalues hqc, Function.update_of_ne hqc]
      exact htable q (by omega)

end

end Lockstep
