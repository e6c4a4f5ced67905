import Lockstep.Proofs.Run.Reach

/-!
# Going straight on

A stretch of a program without jumps, from its first instruction on. What its
instructions have left is one list, the operand of each at its own position; every
further instruction finds its operands there and adds its own.
-/

namespace Lockstep

namespace Context

/-- The tables have the operand at the position. -/
structure Has (c : Context) (s : Nat) (o : Operand) : Prop where
  value : c.values.get? s = some o.values
  type : c.types.get? s = some o.type

/-- The context after an instruction that has left a value and goes on. -/
def leaves (c : Context) (t : DType) (x : LaneValues) : Context :=
  ((c.counted.declared t).define x).follow .proceed

section

variable {c : Context} {s : Nat} {o : Operand} {t : DType} {x : LaneValues}

theorem Has.operand_eq (h : c.Has s o) : c.operand s = .ok o := by
  rw [operand, h.value]
  simp only [h.type]

@[simp] theorem leaves_pc (c : Context) (t : DType) (x : LaneValues) :
    (c.leaves t x).pc = c.pc + 1 := rfl
@[simp] theorem leaves_values (c : Context) (t : DType) (x : LaneValues) :
    (c.leaves t x).values = c.values.insert c.pc x := rfl
@[simp] theorem leaves_types (c : Context) (t : DType) (x : LaneValues) :
    (c.leaves t x).types = c.types.insert c.pc t := rfl

theorem has_leaves_self : (c.leaves t x).Has c.pc ⟨x, t⟩ :=
  ⟨c.values.get?_insert_self c.pc x, c.types.get?_insert_self c.pc t⟩

theorem Has.leaves (h : c.Has s o) (hs : s ≠ c.pc) : (c.leaves t x).Has s o :=
  ⟨(c.values.get?_insert_of_ne hs x).trans h.value, (c.types.get?_insert_of_ne hs t).trans h.type⟩

/-- A buffer that is bound is a view on every lane. -/
theorem defineGlobal_of_bind {s : ScalarType} {v : View} {m : Memory}
    (h : c.memory.bind? s = some (.ok v, m)) : c.defineGlobal (.scalar s) =
      .ok ({ c with memory := m }.define (.buffer (c.warp.splat v))) := by
  have hs : bufferFormat c.pc (.scalar s) = .ok s := rfl
  simp only [defineGlobal, hs, h, bind, Except.bind, pure, Except.pure]

/-- A launch value that converts is the same on every lane. -/
theorem defineVar_of_convert {s : ScalarType} {a w : Value} (ha : c.launchValues[c.bound]? = some a)
    (hw : a.convert s = .ok w) : c.defineVar (.scalar s) =
      .ok ({ c with bound := c.bound + 1 }.define (.scalar (c.warp.splat w))) := by
  simp only [defineVar, ha, DType.element, hw, conversion, Except.mapError, bind, Except.bind, pure,
    Except.pure]

end

end Context

/-- Since the first context the program has gone straight on to the second, which stands
after the instructions that have left the operands. So many buffers and launch values
have been bound in all. -/
structure Stretch (c₀ : Context) (os : List Operand) (buffers vars : Nat) (c : Context) : Prop where
  pc : c.pc = os.length
  has : ∀ i o, os[i]? = some o → c.Has i o
  ahead : ∀ q, os.length ≤ q → c.values.get? q = c₀.values.get? q
  point : c.point = c₀.point
  warp : c.warp = c₀.warp
  launchValues : c.launchValues = c₀.launchValues
  loopEnds : c.loopEnds = c₀.loopEnds
  globals : c.memory.globals = c₀.memory.globals
  buffers : c.memory.bound = buffers
  vars : c.bound = vars

variable {p : Program} {u : Uop} {c₀ c c₁ : Context} {os os₁ ops : List Operand}
  {b b₁ v v₁ : Nat} {t : DType} {x : LaneValues} {s : ScalarType}

/-- A store whose writes are worked out. -/
theorem step_of_store {src : List Nat} {a : Arg} {ws : List Write} {m : Memory}
    {r : Except Fault Unit} (hu : p.get? c.pc = some ⟨.store, none, src, a⟩)
    (hg : gather p ⟨.store, none, src, a⟩ c = .ok ops) (hws : storeWrites c.pc ops = .ok ws)
    (hm : c.memory.perform ws = (m, r)) :
    step p c = ({ c.counted with memory := m }, r.map fun _ => .proceed) := by
  rw [step_of_gather hu (by simp) rfl hg, if_pos rfl, Lockstep.store]
  simp only [Context.counted_pc, hws, Context.counted_memory, hm]

/-- The operands that an instruction finds among those left before. -/
abbrev Picks (p : Program) (u : Uop) (os ops : List Operand) : Prop :=
  List.Forall₂ (fun s o => os[s]? = some o) (p.valueOperands u) ops

namespace Stretch

theorem start (x : Point) (w : Warp) (bs : List Buffer) (vs : List Value) :
    Stretch (.start x w bs vs) [] 0 0 (.start x w bs vs) where
  pc := rfl
  has i o h := by cases h
  ahead _ _ := rfl
  point := rfl
  warp := rfl
  launchValues := rfl
  loopEnds := rfl
  globals := rfl
  buffers := rfl
  vars := rfl

/-- A stretch may be looked at from where it has come to. -/
theorem rebase (h : Stretch c₀ os b v c) : Stretch c os b v c :=
  { h with
    ahead := fun _ _ => rfl
    point := rfl
    warp := rfl
    launchValues := rfl
    loopEnds := rfl
    globals := rfl }

theorem gather_eq (h : Stretch c₀ os b v c) (hops : Picks p u os ops) : gather p u c = .ok ops :=
  mapM_eq_ok.mpr (hops.imp fun s o hs => (h.has s o hs).operand_eq)

theorem leaves (h : Stretch c₀ os b v c) (t : DType) (x : LaneValues) :
    Stretch c₀ (os ++ [⟨x, t⟩]) b v (c.leaves t x) where
  pc := by rw [Context.leaves_pc, h.pc, List.length_append, List.length_singleton]
  has i o hi := by
    rcases Nat.lt_or_ge i os.length with hlt | hge
    · rw [List.getElem?_append_left hlt] at hi
      exact (h.has i o hi).leaves (h.pc ▸ Nat.ne_of_lt hlt)
    · rw [List.getElem?_append_right hge] at hi
      obtain ⟨hone, rfl⟩ := List.getElem?_eq_some_iff.mp hi
      obtain rfl : i = c.pc := by
        rw [List.length_singleton] at hone
        rw [h.pc]
        omega
      rw [List.getElem_singleton]
      exact Context.has_leaves_self
  ahead q hq := by
    rw [List.length_append, List.length_singleton] at hq
    rw [Context.leaves_values, Table.get?_insert_of_ne _ (by rw [h.pc]; omega), h.ahead q (by omega)]
  point := h.point
  warp := h.warp
  launchValues := h.launchValues
  loopEnds := h.loopEnds
  globals := h.globals
  buffers := h.buffers
  vars := h.vars

/-- An instruction that makes a value, in a context that may have changed apart from that,
goes straight on. -/
theorem produce (h : Stretch c₀ os b v c) (h₁ : Stretch c₀ os₁ b₁ v₁ c₁)
    (hu : p.get? os.length = some u) (hk : u.kind.isProducer = true) (hd : u.dtype = some t)
    (hops : Picks p u os ops)
    (hp : Lockstep.produce p u t (c.counted.declared t) ops =
      .ok ((c₁.counted.declared t).define x)) :
    ∃ c', Steps p c c' ∧ Stretch c₀ (os₁ ++ [⟨x, t⟩]) b₁ v₁ c' := by
  have hu' : p.get? c.pc = some u := h.pc ▸ hu
  exact ⟨c₁.leaves t x,
    steps_of_proceed (step_of_fires (.produce hu' hk hd (h.gather_eq hops) hp)), h₁.leaves t x⟩

/-! ## What comes from outside -/

theorem bindsGlobal {name : Arg} {g : Buffer} (h : Stretch c₀ os b v c)
    (hu : p.get? os.length = some ⟨.defineGlobal, some (.scalar s), [], name⟩)
    (hg : c₀.memory.globals[b]? = some g) (hfits : g.fits s = true) :
    ∃ c', Steps p c c' ∧
      Stretch c₀ (os ++ [⟨.buffer (c₀.warp.splat ⟨.global b, s⟩), .scalar s⟩]) (b + 1) v c' := by
  have h₁ : Stretch c₀ os (b + 1) v
      { c with memory := { c.memory with bound := c.memory.bound + 1 } } :=
    { h with
      has := fun i o hi => ⟨(h.has i o hi).value, (h.has i o hi).type⟩
      buffers := congrArg (· + 1) h.buffers }
  refine h.produce h₁ hu rfl rfl .nil ?_
  have hbind : c.memory.bind? s =
      some (.ok ⟨.global b, s⟩, { c.memory with bound := c.memory.bound + 1 }) := by
    rw [Memory.bind?, h.globals, h.buffers, hg]
    simp [Buffer.checkView, hfits, Except.map, Except.mapError, h.globals]
  rw [← h.warp]
  exact Context.defineGlobal_of_bind (c := c.counted.declared (.scalar s)) hbind

theorem bindsVar {name : Arg} {a w : Value} (h : Stretch c₀ os b v c)
    (hu : p.get? os.length = some ⟨.defineVar, some (.scalar s), [], name⟩)
    (ha : c₀.launchValues[v]? = some a) (hw : a.convert s = .ok w) :
    ∃ c', Steps p c c' ∧
      Stretch c₀ (os ++ [⟨.scalar (c₀.warp.splat w), .scalar s⟩]) b (v + 1) c' := by
  have h₁ : Stretch c₀ os b (v + 1) { c with bound := c.bound + 1 } :=
    { h with
      has := fun i o hi => ⟨(h.has i o hi).value, (h.has i o hi).type⟩
      vars := congrArg (· + 1) h.vars }
  refine h.produce h₁ hu rfl rfl .nil ?_
  have ha' : c.launchValues[c.bound]? = some a := by rw [h.launchValues, h.vars, ha]
  rw [← h.warp]
  exact Context.defineVar_of_convert (c := c.counted.declared (.scalar s)) ha' hw

theorem constant {k : Kind} {l : Literal} {w : Value} (h : Stretch c₀ os b v c)
    (hu : p.get? os.length = some ⟨k, some (.scalar s), [], .literal l⟩)
    (hk : k = .const ∨ k = .defineAcc) (hw : l.toValue s = .ok w) :
    ∃ c', Steps p c c' ∧
      Stretch c₀ (os ++ [⟨.scalar (c₀.warp.splat w), .scalar s⟩]) b v c' := by
  have hp : Context.constant (c.counted.declared (.scalar s)) (.scalar s) (.literal l) =
      .ok ((c.counted.declared (.scalar s)).define (.scalar (c.warp.splat w))) := by
    change (conversion (l.toValue s) >>= _) = _
    rw [hw]
    rfl
  rw [← h.warp]
  rcases hk with rfl | rfl
  · exact h.produce h hu rfl rfl .nil hp
  · exact h.produce h hu rfl rfl .nil hp

theorem special {dim : Nat} {name : String} {ns : List Nat} {lanes : Lanes}
    (h : Stretch c₀ os b v c)
    (hu : p.get? os.length = some ⟨.special, some (.scalar s), [], .axis dim name⟩) (hdim : dim < 3)
    (hns : c₀.coordinates? dim name = some ns)
    (hlanes : ns.mapM (fun (n : Nat) => conversion (Value.ofInt n s)) = .ok lanes) :
    ∃ c', Steps p c c' ∧ Stretch c₀ (os ++ [⟨.scalar lanes, .scalar s⟩]) b v c' := by
  refine h.produce h hu rfl rfl .nil ?_
  have hns' : (c.counted.declared (.scalar s)).coordinates? dim name = some ns := by
    change c.coordinates? dim name = _
    rw [← hns]
    unfold Context.coordinates?
    rw [h.point, h.warp]
  change Context.special (c.counted.declared (.scalar s)) (.scalar s) (.axis dim name) = _
  unfold Context.special
  dsimp only
  rw [if_neg (Nat.not_le.mpr hdim), hns']
  change (ns.mapM (fun (n : Nat) => conversion (Value.ofInt n s)) >>= _) = _
  rw [hlanes]
  rfl

/-! ## What is made of operands -/

theorem load {src : List Nat} {a : Arg} (h : Stretch c₀ os b v c)
    (hu : p.get? os.length = some ⟨.load, some t, src, a⟩)
    (hops : Picks p ⟨.load, some t, src, a⟩ os ops) (hx : Lockstep.load c.memory t ops = .ok x) :
    ∃ c', Steps p c c' ∧ Stretch c₀ (os ++ [⟨x, t⟩]) b v c' := by
  refine h.produce h hu rfl rfl hops ?_
  change (Lockstep.load c.memory t ops).map _ = _
  rw [hx]
  rfl

theorem alu {op : AluOp} {src : List Nat} (h : Stretch c₀ os b v c)
    (hu : p.get? os.length = some ⟨.alu, some t, src, .operation op⟩)
    (hops : Picks p ⟨.alu, some t, src, .operation op⟩ os ops)
    (hx : Lockstep.alu op t ops = .ok x) :
    ∃ c', Steps p c c' ∧ Stretch c₀ (os ++ [⟨x, t⟩]) b v c' := by
  refine h.produce h hu rfl rfl hops ?_
  change (Lockstep.alu op t ops).map _ = _
  rw [hx]
  rfl

/-- An accumulator keeps its type and takes the value that it is given. -/
theorem phi {accumulator value : Nat} {a : Arg} {o o' : Operand} (h : Stretch c₀ os b v c)
    (hu : p.get? os.length = some ⟨.phi, some t, [accumulator, value], a⟩)
    (hsrc : p.valueOperands ⟨.phi, some t, [accumulator, value], a⟩ = [accumulator, value])
    (ho : os[accumulator]? = some o) (ho' : os[value]? = some o') :
    ∃ c', Steps p c c' ∧
      Stretch c₀ (os.set accumulator ⟨o'.values, o.type⟩ ++ [⟨o'.values, t⟩]) b v c' := by
  have hlt : accumulator < os.length := (List.getElem?_eq_some_iff.mp ho).1
  have h₁ : Stretch c₀ (os.set accumulator ⟨o'.values, o.type⟩) b v
      { c with values := c.values.insert accumulator o'.values } :=
    { h with
      pc := by rw [List.length_set]; exact h.pc
      has := by
        intro i o₁ hi
        rw [List.getElem?_set] at hi
        split at hi
        · rename_i hacc
          obtain rfl : accumulator = i := hacc
          cases hi
          exact ⟨c.values.get?_insert_self accumulator _, (h.has _ _ ho).type⟩
        · rename_i hne
          exact ⟨(c.values.get?_insert_of_ne (Ne.symm hne) _).trans (h.has i o₁ hi).value,
            (h.has i o₁ hi).type⟩
      ahead := by
        intro q hq
        rw [List.length_set] at hq
        exact (c.values.get?_insert_of_ne (by omega) _).trans (h.ahead q hq) }
  have hops : Picks p ⟨.phi, some t, [accumulator, value], a⟩ os [o, o'] := by
    rw [Picks, hsrc]
    exact .cons ho (.cons ho' .nil)
  refine h.produce h₁ hu rfl rfl hops ?_
  change carry _ _ _ _ = _
  unfold carry
  rw [hsrc]
  rfl

/-- What a store does is what its writes do. -/
theorem store {src : List Nat} {a : Arg} {ws : List Write} {m : Memory} {r : Except Fault Unit}
    (h : Stretch c₀ os b v c) (hu : p.get? os.length = some ⟨.store, none, src, a⟩)
    (hops : Picks p ⟨.store, none, src, a⟩ os ops) (hws : storeWrites os.length ops = .ok ws)
    (hm : c.memory.perform ws = (m, r)) :
    step p c = ({ c.counted with memory := m }, r.map fun _ => .proceed) :=
  step_of_store (h.pc ▸ hu) (h.gather_eq hops) (h.pc ▸ hws) hm

/-! ## Loops -/

/-- A loop that is not running is entered. -/
theorem enter {src : List Nat} {a : Arg} {start w : Value} (h : Stretch c₀ os b v c)
    (hu : p.get? os.length = some ⟨.loop, some t, src, a⟩)
    (hops : Picks p ⟨.loop, some t, src, a⟩ os ops) (hn : c₀.values.get? os.length = none)
    (hstart : Operand.firstLane os.length ops 0 = .ok start) (hw : start.convert t.element = .ok w) :
    ∃ c', Steps p c c' ∧ Stretch c₀ (os ++ [⟨.scalar (c₀.warp.splat w), t⟩]) b v c' := by
  have hu' : p.get? c.pc = some ⟨.loop, some t, src, a⟩ := h.pc ▸ hu
  have hn' : c.values.get? c.pc = none := by rw [h.pc, h.ahead _ (Nat.le_refl _), hn]
  rw [← h.warp]
  exact ⟨c.leaves t (.scalar (c.warp.splat w)),
    steps_of_proceed (step_of_fires
      (.enter hu' rfl rfl (h.gather_eq hops) hn' (h.pc ▸ hstart) hw)), h.leaves _ _⟩

/-- A loop goes round once more. -/
theorem again {src : List Nat} {a : Arg} {counter next : Lanes} {stop : Value}
    (h : Stretch c₀ os b v c) (hu : p.get? os.length = some ⟨.loop, some t, src, a⟩)
    (hops : Picks p ⟨.loop, some t, src, a⟩ os ops)
    (hn : c₀.values.get? os.length = some (.scalar counter))
    (hi : counter.mapM Loop.increment = .ok next)
    (hstop : Operand.firstLane os.length ops 1 = .ok stop) (hr : Loop.reached next stop = false) :
    ∃ c', Steps p c c' ∧ Stretch c₀ (os ++ [⟨.scalar next, t⟩]) b v c' := by
  have hu' : p.get? c.pc = some ⟨.loop, some t, src, a⟩ := h.pc ▸ hu
  have hn' : c.values.get? c.pc = some (.scalar counter) := by
    rw [h.pc, h.ahead _ (Nat.le_refl _), hn]
  exact ⟨c.leaves t (.scalar next),
    steps_of_proceed (step_of_fires
      (.again hu' rfl rfl (h.gather_eq hops) hn' hi (h.pc ▸ hstop) hr)), h.leaves _ _⟩

/-- A loop that has come to its end bound goes on after its recorded end. -/
theorem leave {src : List Nat} {a : Arg} {counter next : Lanes} {stop : Value} {e : Nat}
    (h : Stretch c₀ os b v c) (hu : p.get? os.length = some ⟨.loop, some t, src, a⟩)
    (hops : Picks p ⟨.loop, some t, src, a⟩ os ops)
    (hn : c₀.values.get? os.length = some (.scalar counter))
    (hi : counter.mapM Loop.increment = .ok next)
    (hstop : Operand.firstLane os.length ops 1 = .ok stop) (hr : Loop.reached next stop = true)
    (he : c₀.loopEnds.get? os.length = some e) :
    ∃ c', Steps p c c' ∧ c'.pc = e + 1 ∧ c'.memory = c.memory ∧
      ∀ i o, i ≠ os.length → c.Has i o → c'.Has i o := by
  have hu' : p.get? c.pc = some ⟨.loop, some t, src, a⟩ := h.pc ▸ hu
  have hn' : c.values.get? c.pc = some (.scalar counter) := by
    rw [h.pc, h.ahead _ (Nat.le_refl _), hn]
  have he' : c.loopEnds.get? c.pc = some e := by rw [h.pc, h.loopEnds, he]
  refine ⟨_, steps_of_jump (step_of_fires
    (.leave hu' rfl rfl (h.gather_eq hops) hn' hi (h.pc ▸ hstop) hr he')), rfl, rfl, ?_⟩
  intro i o hi ho
  rw [← h.pc] at hi
  exact ⟨(c.values.get?_erase_of_ne hi).trans ho.value,
    (c.types.get?_insert_of_ne hi t).trans ho.type⟩

/-- The end of a loop goes back to it and is put on record. -/
theorem close {l : Nat} {r : List Nat} {a : Arg} (h : Stretch c₀ os b v c)
    (hu : p.get? os.length = some ⟨.endLoop, none, l :: r, a⟩) (hl : l ≤ os.length) :
    ∃ c', Steps p c c' ∧ Stretch c' (os.take l) b v c' ∧ c'.memory = c.memory ∧
      c'.warp = c.warp ∧ c'.loopEnds.get? l = some os.length ∧
      ∀ i o, os[i]? = some o → c'.Has i o := by
  have hu' : p.get? c.pc = some ⟨.endLoop, none, l :: r, a⟩ := h.pc ▸ hu
  have hhas : ∀ i o, os[i]? = some o →
      Context.Has { c.counted with loopEnds := c.loopEnds.insert l c.pc, pc := l } i o :=
    fun i o hi => ⟨(h.has i o hi).value, (h.has i o hi).type⟩
  refine ⟨_, steps_of_jump (step_of_fires (.close hu' rfl rfl)), ?_, rfl, rfl, ?_, hhas⟩
  · refine { h.rebase with
      pc := (List.length_take_of_le hl).symm
      has := fun i o hi => hhas i o ?_
      ahead := fun _ _ => rfl
      loopEnds := rfl
      point := rfl
      warp := rfl
      launchValues := rfl
      globals := rfl
      buffers := h.buffers
      vars := h.vars }
    rw [List.getElem?_take] at hi
    split at hi
    · exact hi
    · cases hi
  · rw [← h.pc]
    exact c.loopEnds.get?_insert_self l c.pc

end Stretch

end Lockstep
