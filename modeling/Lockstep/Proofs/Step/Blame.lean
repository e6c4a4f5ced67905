import Lockstep.Proofs.Step.Compute
import Lockstep.Step

/-!
# Faults of single instructions

Which faults the parts of an instruction can raise. Most are about the data and
can come from any part; `Refuses` lists the others that a producing instruction
raises, with what has to hold for each. A view that stands for no buffer is one
of them.
-/

namespace Lockstep

/-- The fault is about the data: neither the form of the program explains it nor
lanes or buffers that are missing. -/
def Fault.isData : Fault → Bool
  | .malformed _ _ | .noValue _ _ => false
  | .invalidOperands _ (.laneCounts _) | .invalidOperands _ (.matrixTotal _ _) => false
  | .invalidOperands _ (.unbound _) => false
  | _ => true

/-! ## Operands -/

namespace Operand

theorem scalar_raises (op : Operation) (ops : List Operand) (i : Nat) :
    Raises (scalar op ops i) (·.isData = true) := by
  unfold scalar
  split
  · exact .ok _
  · exact .error rfl

theorem vector_raises (op : Operation) (ops : List Operand) (i : Nat) :
    Raises (vector op ops i) (·.isData = true) := by
  unfold vector
  split
  · exact .ok _
  · exact .error rfl

theorem element_raises (op : Operation) (ops : List Operand) (i j : Nat) :
    Raises (element op ops i j) (·.isData = true) := by
  unfold element
  split
  · exact .ok _
  · exact .error rfl

theorem scalars_raises (op : Operation) (ops : List Operand) :
    Raises (scalars op ops) (·.isData = true) := by
  refine .mapM fun x _ => ?_
  dsimp only
  split
  · exact .ok _
  · exact .error rfl

theorem views_raises (a : Access) (values : LaneValues) :
    Raises (views a values) (·.isData = true) := by
  unfold views
  split
  · exact .ok _
  · exact .error rfl

theorem coordinates_raises (a : Access) (ops : List Operand) :
    Raises (coordinates a ops) (·.isData = true) := by
  unfold coordinates
  split
  · exact .ok _
  · exact .error rfl

theorem require_raises (pc : Nat) (ops : List Operand) (i : Nat) :
    Raises (require pc ops i) fun f => ops[i]? = none ∧ f = .malformed pc (.missingOperand i) := by
  unfold require
  split
  · exact .ok _
  · rename_i hnone
    exact .error ⟨hnone, rfl⟩

theorem firstLane_raises (pc : Nat) (ops : List Operand) (i : Nat) :
    Raises (firstLane pc ops i) fun f =>
      (ops[i]? = none ∧ f = .malformed pc (.missingOperand i)) ∨ f = .malformed pc (.loopBound i) := by
  refine .bind ((require_raises pc ops i).mono fun f hf => .inl hf) fun o _ => ?_
  split
  · exact .ok _
  · exact .error (.inr rfl)

end Operand

/-! ## Arithmetic and conversions -/

theorem conversion_raises (r : Except ConvertError Value) :
    Raises (conversion r) (·.isData = true) :=
  .mapError fun _ => rfl

namespace Alu

theorem promote_raises (op : AluOp) (declared : ScalarType) (operands : List Value) :
    Raises (promote op declared operands) (·.isData = true) := by
  refine .bind (.mapM fun v _ => ?_) fun vs _ => ?_
  · unfold readOperand
    split
    · exact .mapError fun _ => rfl
    · exact .ok _
  · dsimp only
    split
    · exact .ok _
    · exact .error rfl

theorem prepare_raises (op : AluOp) (declared : ScalarType) (operands : List Value) :
    Raises (prepare op declared operands) (·.isData = true) := by
  unfold prepare
  split
  · exact .error rfl
  · exact .map (promote_raises _ _ _)
  · exact promote_raises _ _ _

theorem represent_raises (op : AluOp) (t : ScalarType) (n : Number) :
    Raises (represent op t n) (·.isData = true) := by
  unfold represent
  split
  · exact .ok _
  · exact .error rfl
  · split
    · exact .ok _
    · exact .error rfl
    · exact .error rfl

theorem execute_raises (op : AluOp) (declared : ScalarType) (operands : List Value) :
    Raises (execute op declared operands) (·.isData = true) := by
  refine .bind (.bind (prepare_raises op declared operands) fun p _ => ?_) fun r _ =>
    represent_raises op r.1 r.2
  dsimp only
  split
  · exact .error rfl
  · dsimp only [pure, Except.pure, bind, Except.bind]
    split
    · exact .ok _
    · exact .error rfl
    · exact .error rfl

end Alu

theorem Loop.increment_raises (v : Value) : Raises (Loop.increment v) (·.isData = true) :=
  .bind (conversion_raises _) fun _ _ => Alu.execute_raises _ _ _

theorem alu_raises (op : AluOp) (d : DType) (ops : List Operand) :
    Raises (alu op d ops) fun f => f.isData = true ∨ ∃ rows, Operand.scalars (.alu op) ops = .ok rows ∧
      (∃ r ∈ rows, r.length ≠ leadingCount rows) ∧
        f = .invalidOperands (.alu op) (.laneCounts (rows.map List.length)) := by
  have hdata : ∀ f : Fault, f.isData = true → f.isData = true ∨ ∃ rows,
      Operand.scalars (.alu op) ops = .ok rows ∧ (∃ r ∈ rows, r.length ≠ leadingCount rows) ∧
        f = .invalidOperands (.alu op) (.laneCounts (rows.map List.length)) := fun f => .inl
  refine .bind ((Operand.scalars_raises _ _).mono hdata) fun rows hrows => ?_
  dsimp only
  split
  · rename_i hany
    obtain ⟨r, hr, hne⟩ := List.any_eq_true.mp hany
    exact .error (.inr ⟨rows, hrows, ⟨r, hr, by simpa using hne⟩, rfl⟩)
  · split
    · exact .error (.inl rfl)
    · exact .bind ((Raises.mapM fun l _ => Alu.execute_raises _ _ _).mono hdata) fun r _ => .ok _

/-! ## Memory -/

namespace Memory

/-- The fault says that one of the views stands for no buffer, and it does not. -/
def Misses (m : Memory) (views : List View) (f : Fault) : Prop :=
  ∃ v ∈ views, m.buffer? v.buffer = none ∧
    ∃ a, f = .invalidOperands (.memory a) (.unbound v.buffer)

/-- An access through one of the views fails on account of the data, or for want
of a buffer. -/
def Blames (m : Memory) (views : List View) (f : Fault) : Prop :=
  f.isData = true ∨ m.Misses views f

theorem Blames.data {m : Memory} {views : List View} {f : Fault} (h : f.isData = true) :
    m.Blames views f :=
  .inl h

theorem Blames.of_mem {m : Memory} {views : List View} {v : View} {f : Fault}
    (h : m.Blames [v] f) (hv : v ∈ views) : m.Blames views f := by
  rcases h with h | ⟨v', hv', hnone, hf⟩
  · exact .inl h
  · rw [List.mem_singleton.mp hv'] at hnone hf
    exact .inr ⟨v, hv, hnone, hf⟩

theorem resolve_raises (m : Memory) (v : View) (a : Access) :
    Raises (m.resolve v a) (m.Blames [v]) := by
  unfold resolve
  split
  · exact .ok _
  · rename_i hnone
    exact .error (.inr ⟨v, List.mem_singleton_self v, hnone, a, rfl⟩)

theorem slot_raises (b : Buffer) (t : ScalarType) (i : Int) (a : Access) :
    Raises (slot b t i a) (·.isData = true) := by
  unfold slot
  split
  · exact .ok _
  · exact .error rfl

theorem offset_raises (x : Value) (a : Access) : Raises (offset x a) (·.isData = true) := by
  unfold offset
  split
  · exact .ok _
  · exact .error rfl

theorem address_raises (a : Access) (base : Value) (delta : Int) :
    Raises (address a base delta) (·.isData = true) :=
  .map (offset_raises base a)

theorem read_raises (m : Memory) (v : View) (i : Int) :
    Raises (m.read v i) (m.Blames [v]) := by
  refine .bind (resolve_raises m v _) fun b _ =>
    .bind ((slot_raises _ _ _ _).mono fun f => .data) fun n _ => ?_
  split
  · exact .ok _
  · exact .error (.data rfl)

theorem write_raises (m : Memory) (v : View) (i : Int) (x : Value) :
    Raises (m.write v i x) (m.Blames [v]) := by
  refine .bind (resolve_raises m v _) fun b _ =>
    .bind ((slot_raises _ _ _ _).mono fun f => .data) fun n _ => ?_
  split
  · exact .ok _
  · exact .error (.data rfl)

/-- A write takes no buffer away. -/
theorem buffer?_of_write {m m' : Memory} {v : View} {i : Int} {x : Value} {r : BufferRef}
    (h : m.write v i x = .ok m') (hr : m'.buffer? r = none) : m.buffer? r = none := by
  obtain ⟨b, -, h⟩ := bind_eq_ok.mp h
  obtain ⟨n, -, h⟩ := bind_eq_ok.mp h
  split at h
  · cases h
    unfold setBuffer at hr
    split at hr
    all_goals
      cases r with
      | global k => simpa [buffer?] using hr
      | scratch k => simpa [buffer?] using hr
  · cases h

theorem loadLane_raises (m : Memory) (v : View) (base : Value) (delta : Int) :
    Raises (m.loadLane v base delta) (m.Blames [v]) :=
  .bind ((address_raises _ _ _).mono fun _ => .data) fun _ _ => read_raises _ _ _

theorem load_raises (m : Memory) (views : List View) (offsets : Lanes) (delta : Int) :
    Raises (m.load views offsets delta) (m.Blames views) :=
  .mapM fun _ hx => (loadLane_raises _ _ _ _).mono fun _ hf => hf.of_mem (List.of_mem_zip hx).1

theorem loadGated_raises (m : Memory) (views : List View) (offsets gate default : Lanes)
    (delta : Int) : Raises (m.loadGated views offsets gate default delta) (m.Blames views) := by
  refine .mapM fun x hx => ?_
  have hview := (List.of_mem_zip (List.of_mem_zip hx).1).1
  dsimp only
  split
  · exact (loadLane_raises _ _ _ _).mono fun _ hf => hf.of_mem hview
  · exact .ok _

theorem texel?_raises (height width : Nat) (x y : Int) (channel : Nat) :
    Raises (texel? height width x y channel) (·.isData = true) := by
  unfold texel?
  split
  · exact .mapError fun _ => rfl
  · exact .ok _

theorem loadTexel_raises (m : Memory) (v : View) (height width : Nat) (x y : Value)
    (channel : Nat) : Raises (m.loadTexel v height width x y channel) (m.Blames [v]) := by
  refine .bind ((offset_raises _ _).mono fun _ => .data) fun x _ =>
    .bind ((offset_raises _ _).mono fun _ => .data) fun y _ =>
      .bind ((texel?_raises _ _ _ _ _).mono fun _ => .data) fun place _ => ?_
  split
  · exact read_raises _ _ _
  · exact .ok _

theorem loadImage_raises (m : Memory) (views : List View) (height width : Nat) (xs ys : Lanes) :
    Raises (m.loadImage views height width xs ys) (m.Blames views) :=
  .mapM fun _ _ => .mapM fun _ hx =>
    (loadTexel_raises _ _ _ _ _ _ _).mono fun _ hf => hf.of_mem (List.of_mem_zip hx).1

theorem texelAddress_raises (height width : Nat) (x y : Value) (channel : Nat) :
    Raises (texelAddress height width x y channel) (·.isData = true) := by
  refine .bind (offset_raises _ _) fun x _ => .bind (offset_raises _ _) fun y _ =>
    .bind (texel?_raises _ _ _ _ _) fun place _ => ?_
  split
  · exact .ok _
  · exact .error rfl

theorem perform_raises {m : Memory} {ws : List Write}
    (hws : ∀ w ∈ ws, Raises w.address (·.isData = true)) :
    Raises (m.perform ws).2 (m.Blames (ws.map Write.view)) := by
  induction ws generalizing m with
  | nil => exact .ok _
  | cons w ws ih =>
    unfold perform
    split
    · rename_i e he
      exact .error (.data (hws w List.mem_cons_self e he))
    · split
      · rename_i e he
        exact .error ((write_raises _ _ _ _ e he).of_mem List.mem_cons_self)
      · rename_i m' hm'
        refine (ih fun w' hw' => hws w' (List.mem_cons_of_mem _ hw')).mono fun f hf => ?_
        rcases hf with hf | ⟨v, hv, hnone, hf⟩
        · exact .data hf
        · exact .inr ⟨v, List.mem_cons_of_mem _ hv, buffer?_of_write hm' hnone, hf⟩

theorem writes_raises {views : List View} {offsets values : Lanes} {delta : Int} {w : Write}
    (hw : w ∈ writes views offsets values delta) : Raises w.address (·.isData = true) := by
  obtain ⟨x, -, rfl⟩ := List.mem_map.mp hw
  exact address_raises _ _ _

theorem vectorWrites_raises {views : List View} {offsets : Lanes} {elements : List Lanes}
    {w : Write} (hw : w ∈ vectorWrites views offsets elements) :
    Raises w.address (·.isData = true) := by
  obtain ⟨x, -, hw⟩ := List.mem_flatMap.mp hw
  exact writes_raises hw

theorem texelWrites_raises {views : List View} {height width : Nat} {xs ys : Lanes}
    {elements : List Lanes} {w : Write} (hw : w ∈ texelWrites views height width xs ys elements) :
    Raises w.address (·.isData = true) := by
  obtain ⟨x, -, hw⟩ := List.mem_flatMap.mp hw
  obtain ⟨y, -, rfl⟩ := List.mem_map.mp hw
  exact texelAddress_raises _ _ _ _ _

end Memory

theorem loadElement_raises (m : Memory) (views : List View) (ops : List Operand) (j : Nat) :
    Raises (loadElement m views ops j) (m.Blames views) := by
  have helement : ∀ i, Raises (Operand.element (.memory .load) ops i j) (m.Blames views) :=
    fun i => (Operand.element_raises _ _ i j).mono fun _ => .data
  refine .bind (helement 1) fun offsets _ => ?_
  split
  · exact .bind (helement 2) fun gate _ => .bind (helement 3) fun default _ =>
      Memory.loadGated_raises _ _ _ _ _ _
  · exact Memory.load_raises _ _ _ _

theorem loadElements_raises (m : Memory) (views : List View) (ops : List Operand) (j n : Nat) :
    Raises (loadElements m views ops j n) (m.Blames views) := by
  induction n generalizing j with
  | zero => exact .ok _
  | succ n ih =>
    exact .bind (loadElement_raises _ _ _ _) fun _ _ => .bind (ih (j + 1)) fun _ _ => .ok _

theorem load_raises (m : Memory) (d : DType) (ops : List Operand) :
    Raises (load m d ops) fun f => f.isData = true ∨
      ∃ o r views, ops = o :: r ∧ o.values.buffer? = some views ∧ m.Misses views f := by
  unfold load
  split
  · exact .error (.inl rfl)
  · rename_i o r
    refine .bind ((Operand.views_raises _ _).mono fun _ => .inl) fun views hviews => ?_
    have hbuffer : o.values.buffer? = some views := Operand.views_eq_ok.mp hviews
    have hblames : ∀ f, m.Blames views f → f.isData = true ∨
        ∃ o' r' views', o :: r = o' :: r' ∧ o'.values.buffer? = some views' ∧ m.Misses views' f :=
      fun f hf => hf.imp id fun hf => ⟨o, r, views, rfl, hbuffer, hf⟩
    split
    · unfold loadTexels
      split
      · exact .error (.inl rfl)
      · exact .bind ((Operand.coordinates_raises _ _).mono fun _ => .inl) fun r _ =>
          .map ((Memory.loadImage_raises _ _ _ _ _ _).mono hblames)
    · unfold loadLinear
      split
      · exact .map ((loadElements_raises _ _ _ _ _).mono hblames)
      · exact .map ((loadElement_raises _ _ _ _).mono hblames)

/-! ## Tensor cores -/

namespace TensorCore

theorem checkMatrix_raises (m : Matrix) (x : List Lanes) (elements lanes : Nat) :
    Raises (checkMatrix m x elements lanes) fun f => f.isData = true ∨
      (∃ l ∈ x, l.length ≠ lanes) ∧ f = .invalidOperands .wmma (.matrixTotal m (elements * lanes)) := by
  unfold checkMatrix
  split
  · exact .error (.inl rfl)
  · split
    · rename_i hany
      obtain ⟨l, hl, hne⟩ := List.any_eq_true.mp hany
      exact .error (.inr ⟨⟨l, hl, by simpa using hne⟩, rfl⟩)
    · exact .ok _

theorem rdnaFactor_raises (x : List Lanes) (i j base : Nat) :
    Raises (rdnaFactor x i j base) (·.isData = true) := by
  unfold rdnaFactor
  dsimp only
  split
  · exact .ok _
  · exact .error rfl

theorem addTerm_raises (core : TensorCore) (a b : List Lanes) (row col base : Nat)
    (sum : Binary64) (k : Nat) :
    Raises (core.addTerm a b row col base sum k) (·.isData = true) := by
  refine .bind ?_ fun x _ => .bind ?_ fun y _ => .ok _
  · cases core
    · exact .ok _
    · exact rdnaFactor_raises _ _ _ _
  · cases core
    · exact .ok _
    · exact rdnaFactor_raises _ _ _ _

theorem cell_raises (core : TensorCore) (a b c : List Lanes) (out : ScalarType)
    (base lane element : Nat) :
    Raises (core.cell a b c out base lane element) (·.isData = true) :=
  .bind (.foldlM (fun _ _ _ => addTerm_raises _ _ _ _ _ _ _ _) _) fun _ _ =>
    .mapError fun _ => rfl

theorem cells_raises (core : TensorCore) (a b c : List Lanes) (out : ScalarType) (lanes : Nat) :
    Raises (core.cells a b c out lanes) (·.isData = true) :=
  .mapM fun _ _ => .mapM fun _ _ => cell_raises _ _ _ _ _ _ _ _

/-- The lanes of the sum are those of the whole operation. -/
theorem execute_eq (core : TensorCore) (a b c : List Lanes) (out : ScalarType) :
    core.execute a b c out = do
      checkMatrix .a a core.factorElements (leadingCount c)
      checkMatrix .b b core.factorElements (leadingCount c)
      checkMatrix .c c core.sumElements (leadingCount c)
      if leadingCount c = 0 ∨ leadingCount c % groupSize ≠ 0 then
        throw (.invalidOperands .wmma (.laneGroups groupSize (leadingCount c)))
      let rows ← core.cells a b c out (leadingCount c)
      return (List.range core.sumElements).map fun e => rows.map fun r => r.getD e (.bool false) := by
  cases c <;> rfl

theorem execute_raises (core : TensorCore) (a b c : List Lanes) (out : ScalarType) :
    Raises (core.execute a b c out) fun f => f.isData = true ∨ ∃ x ∈ [a, b, c],
      (∃ l ∈ x, l.length ≠ leadingCount c) ∧ ∃ m n, f = .invalidOperands .wmma (.matrixTotal m n) := by
  have hcheck : ∀ m x elements, x ∈ [a, b, c] → Raises (checkMatrix m x elements (leadingCount c))
      fun f => f.isData = true ∨ ∃ x ∈ [a, b, c],
        (∃ l ∈ x, l.length ≠ leadingCount c) ∧ ∃ m n, f = .invalidOperands .wmma (.matrixTotal m n) := by
    intro m x elements hx
    refine (checkMatrix_raises m x elements _).mono fun f hf => ?_
    rcases hf with hf | ⟨hl, rfl⟩
    · exact .inl hf
    · exact .inr ⟨x, hx, hl, _, _, rfl⟩
  rw [execute_eq]
  refine .bind (hcheck .a a _ (by simp)) fun _ _ => .bind (hcheck .b b _ (by simp)) fun _ _ =>
    .bind (hcheck .c c _ (by simp)) fun _ _ => ?_
  split
  · exact .error (.inl rfl)
  · exact .bind ((cells_raises _ _ _ _ _ _).mono fun f => .inl) fun _ _ => .ok _

theorem ofTag_raises (tag : String) : Raises (ofTag tag) (·.isData = true) := by
  unfold ofTag
  split
  · exact .ok _
  · split
    · exact .ok _
    · exact .error rfl

end TensorCore

/-! ## Instructions -/

section

variable {p : Program} {u : Uop} {d : DType} {c : Context} {ops : List Operand}

/-- A missing operand is reported where it is missed. -/
theorem gather_raises : Raises (gather p u c)
    (fun f => ∃ s ∈ p.valueOperands u, f = .malformed c.pc (.operandValue s) ∨
      f = .malformed c.pc (.operandType s)) := by
  refine .mapM fun s hs => ?_
  unfold Context.operand
  split
  · exact .error ⟨s, hs, .inl rfl⟩
  · split
    · exact .error ⟨s, hs, .inr rfl⟩
    · exact .ok _

/-- An instruction finds the malformation in its own argument, in its declared
type, or in the number of things there are to bind or to pack. -/
def Malformation.isOwn : Malformation → Bool
  | bufferFormat _ | bufferArgument | bufferSize | launchValue | axis | literal => true
  | elementIndex | tag | operation | castElements _ _ | castOperands _ _ => true
  | _ => false

/-- The faults of an instruction that makes its value from the operands. -/
inductive Refuses (p : Program) (u : Uop) (c : Context) (ops : List Operand) : Fault → Prop where
  | data {f : Fault} (hf : f.isData = true) : Refuses p u c ops f
  | own {m : Malformation} (hm : m.isOwn = true) : Refuses p u c ops (.malformed c.pc m)
  | unbound {o : Operand} {r : List Operand} {views : List View} {f : Fault} (hk : u.kind = .load)
      (ho : ops = o :: r) (hv : o.values.buffer? = some views) (hf : c.memory.Misses views f) :
      Refuses p u c ops f
  | accumulator (hk : u.kind = .phi) (hs : p.valueOperands u = []) :
      Refuses p u c ops (.malformed c.pc .accumulator)
  | missing {i : Nat} (hk : u.kind = .phi ∧ i = 1 ∨ u.kind = .gep ∧ i = 0) (ho : ops[i]? = none) :
      Refuses p u c ops (.malformed c.pc (.missingOperand i))
  /-- a name of neither kind, and no value from before -/
  | nameless {dim : Nat} {name : String} (hk : u.kind = .special) (ha : u.arg = .axis dim name)
      (hdim : dim < 3) (hn : c.coordinates? dim name = none) :
      Refuses p u c ops (.noValue c.pc .special)
  | lanes {op : AluOp} {rows : List Lanes} {r : Lanes} (hk : u.kind = .alu)
      (hrows : Operand.scalars (.alu op) ops = .ok rows) (hr : r ∈ rows)
      (hne : r.length ≠ leadingCount rows) :
      Refuses p u c ops (.invalidOperands (.alu op) (.laneCounts (rows.map List.length)))
  | total {i : Nat} {x s : List Lanes} {l : Lanes} {m : Matrix} {n : Nat} (hk : u.kind = .wmma)
      (hx : Operand.vector .wmma ops i = .ok x) (hs : Operand.vector .wmma ops 2 = .ok s)
      (hl : l ∈ x) (hne : l.length ≠ leadingCount s) :
      Refuses p u c ops (.invalidOperands .wmma (.matrixTotal m n))

/-- A fault about the data, or a malformation that the instruction finds in
itself. -/
def Fault.IsOwn (pc : Nat) (f : Fault) : Prop :=
  f.isData = true ∨ ∃ m : Malformation, m.isOwn = true ∧ f = .malformed pc m

theorem refuses_of_isOwn {f : Fault} (h : f.IsOwn c.pc) : Refuses p u c ops f := by
  rcases h with h | ⟨m, hm, rfl⟩
  · exact .data h
  · exact .own hm

theorem bufferFormat_raises (pc : Nat) : Raises (bufferFormat pc d) (Fault.IsOwn pc) := by
  unfold bufferFormat
  split
  · exact .ok _
  · exact .error (.inr ⟨_, rfl, rfl⟩)

theorem bind?_raises {m m' : Memory} {t : ScalarType} {r : Except Fault View}
    (h : m.bind? t = some (r, m')) : Raises r (·.isData = true) := by
  obtain ⟨b, -, hb⟩ := Option.map_eq_some_iff.mp h
  obtain ⟨rfl, -⟩ := Prod.mk.inj hb
  exact .mapError fun _ => rfl

namespace Context

theorem defineGlobal_raises : Raises (c.defineGlobal d) (Fault.IsOwn c.pc) := by
  refine .bind (bufferFormat_raises _) fun t _ => ?_
  split
  · exact .error (.inr ⟨_, rfl, rfl⟩)
  · rename_i h
    exact .bind ((bind?_raises h).mono fun f => .inl) fun _ _ => .ok _

theorem defineLocal_raises {arg : Arg} : Raises (c.defineLocal d arg) (Fault.IsOwn c.pc) := by
  refine .bind (bufferFormat_raises _) fun t _ => ?_
  split
  · exact .ok _
  · exact .error (.inr ⟨_, rfl, rfl⟩)

theorem defineVar_raises : Raises (c.defineVar d) (Fault.IsOwn c.pc) := by
  unfold defineVar
  split
  · exact .error (.inr ⟨_, rfl, rfl⟩)
  · exact .bind ((conversion_raises _).mono fun f => .inl) fun _ _ => .ok _

theorem special_raises (hk : u.kind = .special) :
    Raises (c.special d u.arg) (Refuses p u c ops) := by
  unfold special
  split
  · rename_i dim name ha
    split
    · exact .error (.own rfl)
    · rename_i hdim
      split
      · exact .bind ((Raises.mapM fun _ _ => conversion_raises _).mono fun f => .data) fun _ _ => .ok _
      · rename_i hn
        split
        · exact .ok _
        · exact .error (.nameless hk ha (Nat.lt_of_not_le hdim) hn)
  · exact .error (.own rfl)

theorem constant_raises {arg : Arg} : Raises (c.constant d arg) (Fault.IsOwn c.pc) := by
  unfold constant
  split
  · exact .bind ((conversion_raises _).mono fun f => .inl) fun _ _ => .ok _
  · exact .error (.inr ⟨_, rfl, rfl⟩)

end Context

theorem cast_raises {pc : Nat} : Raises (cast pc d ops) (Fault.IsOwn pc) := by
  unfold cast
  split
  · unfold castVector
    split
    · split
      · exact .ok _
      · exact .error (.inr ⟨_, rfl, rfl⟩)
    · split
      · exact .map ((Operand.scalars_raises _ _).mono fun f => .inl)
      · exact .error (.inr ⟨_, rfl, rfl⟩)
  · refine .bind ((Operand.scalar_raises _ _ _).mono fun f => .inl) fun lanes _ => ?_
    split
    · exact .ok _
    · exact .ok _

theorem carry_raises (hk : u.kind = .phi) : Raises (carry p u c ops) (Refuses p u c ops) := by
  unfold carry
  split
  · rename_i hs
    exact .error (.accumulator hk hs)
  · refine .bind ((Operand.require_raises _ _ _).mono ?_) fun _ _ => .ok _
    rintro f ⟨ho, rfl⟩
    exact .missing (.inl ⟨hk, rfl⟩) ho

theorem pick_raises (hk : u.kind = .gep) : Raises (pick c.pc u.arg ops) (Refuses p u c ops) := by
  unfold pick
  split
  · refine .bind ((Operand.require_raises _ _ _).mono ?_) fun o _ => ?_
    · rintro f ⟨ho, rfl⟩
      exact .missing (.inr ⟨hk, rfl⟩) ho
    · split
      · exact .ok _
      · exact .error (.data rfl)
  · exact .error (.own rfl)

theorem multiplyAccumulate_raises (hk : u.kind = .wmma) :
    Raises (multiplyAccumulate c.pc d u.arg ops) (Refuses p u c ops) := by
  unfold multiplyAccumulate
  split
  · refine .bind ((TensorCore.ofTag_raises _).mono fun f => .data) fun core _ => ?_
    refine .bind ((Operand.vector_raises _ _ _).mono fun f => .data) fun a ha => ?_
    refine .bind ((Operand.vector_raises _ _ _).mono fun f => .data) fun b hb => ?_
    refine .bind ((Operand.vector_raises _ _ _).mono fun f => .data) fun s hs => ?_
    refine .map ((TensorCore.execute_raises _ _ _ _ _).mono fun f hf => ?_)
    rcases hf with hf | ⟨x, hx, ⟨l, hl, hne⟩, m, n, rfl⟩
    · exact .data hf
    · simp only [List.mem_cons, List.not_mem_nil, or_false] at hx
      rcases hx with rfl | rfl | rfl
      · exact .total hk ha hs hl hne
      · exact .total hk hb hs hl hne
      · exact .total hk hs hs hl hne
  · exact .error (.own rfl)

theorem arithmetic_raises (hk : u.kind = .alu) :
    Raises (arithmetic c.pc d u.arg ops) (Refuses p u c ops) := by
  unfold arithmetic
  split
  · refine (alu_raises _ _ _).mono fun f hf => ?_
    rcases hf with hf | ⟨rows, hrows, ⟨r, hr, hne⟩, rfl⟩
    · exact .data hf
    · exact .lanes hk hrows hr hne
  · exact .error (.own rfl)

/-- `Refuses` covers every kind that makes a value from its operands. -/
theorem refuses_of_produce {f : Fault} (h : produce p u d c ops = .error f) :
    Refuses p u c ops f := by
  have hown : ∀ f : Fault, f.IsOwn c.pc → Refuses p u c ops f := fun f => refuses_of_isOwn
  revert f
  change Raises (produce p u d c ops) (Refuses p u c ops)
  unfold produce
  split
  · exact Context.defineGlobal_raises.mono hown
  · exact Context.defineLocal_raises.mono hown
  · exact Context.defineVar_raises.mono hown
  · exact Context.special_raises ‹_›
  · exact Context.constant_raises.mono hown
  · exact Context.constant_raises.mono hown
  · exact .map (cast_raises.mono hown)
  · refine .map ((load_raises _ _ _).mono fun f hf => ?_)
    rcases hf with hf | ⟨o, r, views, ho, hv, hf⟩
    · exact .data hf
    · exact .unbound ‹_› ho hv hf
  · exact carry_raises ‹_›
  · exact .map (pick_raises ‹_›)
  · exact .map (multiplyAccumulate_raises ‹_›)
  · exact .map (arithmetic_raises ‹_›)
  all_goals exact .ok _

namespace Loop

/-- A bound of a loop is missed at its operand. -/
def MissesBound (pc : Nat) (ops : List Operand) (i : Nat) (f : Fault) : Prop :=
  f.isData = true ∨ (ops[i]? = none ∧ f = .malformed pc (.missingOperand i)) ∨
    f = .malformed pc (.loopBound i)

theorem enter_raises : Raises (enter c d ops) (MissesBound c.pc ops 0) :=
  .bind ((Operand.firstLane_raises _ _ _).mono fun _ => .inr) fun _ _ =>
    .bind ((conversion_raises _).mono fun _ => .inl) fun _ _ => .ok _

theorem advance_raises {pc : Nat} {counter : Lanes} :
    Raises (advance pc counter ops) (MissesBound pc ops 1) :=
  .bind ((Raises.mapM fun _ _ => increment_raises _).mono fun _ => .inl) fun _ _ =>
    .bind ((Operand.firstLane_raises _ _ _).mono fun _ => .inr) fun _ _ => .ok _

end Loop

/-- A store is malformed when it has not three operands. -/
theorem storeWrites_raises (pc : Nat) (ops : List Operand) :
    Raises (storeWrites pc ops) fun f => f.isData = true ∨ (ops.length ≠ 3 ∧
      (f = .malformed pc .gatedStore ∨ f = .malformed pc (.storeOperands ops.length))) := by
  unfold storeWrites
  split
  · refine .bind ((Operand.views_raises _ _).mono fun f => .inl) fun views _ => ?_
    split
    · unfold texelStore
      split
      · exact .error (.inl rfl)
      · refine .bind ((Operand.coordinates_raises _ _).mono fun f => .inl) fun r _ =>
          .bind ((Operand.vector_raises _ _ _).mono fun f => .inl) fun elements _ => ?_
        unfold Memory.imageWrites
        split
        · exact .error (.inl rfl)
        · exact .ok _
    · refine .bind ((Operand.scalar_raises _ _ _).mono fun f => .inl) fun offsets _ => ?_
      split
      · exact .bind ((Operand.vector_raises _ _ _).mono fun f => .inl) fun _ _ => .ok _
      · exact .bind ((Operand.scalar_raises _ _ _).mono fun f => .inl) fun _ _ => .ok _
  · rename_i hlen
    have hne : ops.length ≠ 3 := by
      intro h
      obtain ⟨a, b, v, rfl⟩ := List.length_eq_three.mp h
      exact hlen a b v rfl
    split
    · exact .error (.inr ⟨hne, .inl rfl⟩)
    · exact .error (.inr ⟨hne, .inr rfl⟩)

/-- Every write of a store has an address of one of the two forms. -/
theorem storeWrites_address_raises {pc : Nat} {ws : List Write} (h : storeWrites pc ops = .ok ws)
    {w : Write} (hw : w ∈ ws) : Raises w.address (·.isData = true) := by
  unfold storeWrites at h
  split at h
  · obtain ⟨views, -, h⟩ := bind_eq_ok.mp h
    split at h
    · unfold texelStore at h
      split at h
      · cases h
      · obtain ⟨r, -, h⟩ := bind_eq_ok.mp h
        obtain ⟨elements, -, h⟩ := bind_eq_ok.mp h
        unfold Memory.imageWrites at h
        split at h
        · cases h
        · cases h
          exact Memory.texelWrites_raises hw
    · obtain ⟨offsets, -, h⟩ := bind_eq_ok.mp h
      split at h
      · obtain ⟨elements, -, h⟩ := bind_eq_ok.mp h
        cases h
        exact Memory.vectorWrites_raises hw
      · obtain ⟨values, -, h⟩ := bind_eq_ok.mp h
        cases h
        exact Memory.writes_raises hw
  · split at h
    · cases h
    · cases h

/-- A store that has its writes fails on account of the data, or for want of a
buffer to write to. -/
theorem perform_storeWrites_raises {pc : Nat} {ws : List Write} (h : storeWrites pc ops = .ok ws)
    (m : Memory) : Raises (m.perform ws).2 (m.Blames (ws.map Write.view)) :=
  Memory.perform_raises fun _ hw => storeWrites_address_raises h hw

end

end Lockstep
