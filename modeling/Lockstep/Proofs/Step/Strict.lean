import Lockstep.Proofs.Outcome
import Lockstep.Step

/-!
# Steps that look lanes up by number

The instructions pair the lanes of their operands up, and never ask whether one
of them is short. Here every element is looked up by its number instead, and a
number out of range stops the step. Where all values have the lanes of the warp
this makes no difference, so no number is ever out of range.
-/

namespace Lockstep.Strict

/-- What stops a computation that looks elements up by number. -/
inductive Stop where
  | fault (f : Fault)
  /-- there are only so many elements -/
  | range (length index : Nat)

variable {α β : Type}

/-- A computation that looks nothing up. -/
def lift (x : Except Fault α) : Except Stop α := x.mapError .fault

/-- The element of a number, if there are that many. -/
def lookup (l : List α) (i : Nat) : Except Stop α :=
  match l[i]? with
  | some a => .ok a
  | none => .error (.range l.length i)

/-! ## Loads -/

def load (m : Memory) (views : List View) (offsets : Lanes) (delta : Int) : Except Stop Lanes :=
  (List.range views.length).mapM fun lane => do
    let v ← lookup views lane
    let o ← lookup offsets lane
    lift (m.loadLane v o delta)

def loadGated (m : Memory) (views : List View) (offsets gate default : Lanes) (delta : Int) :
    Except Stop Lanes :=
  (List.range views.length).mapM fun lane => do
    let g ← lookup gate lane
    if g.truthy then
      let v ← lookup views lane
      let o ← lookup offsets lane
      lift (m.loadLane v o delta)
    else lookup default lane

def loadElement (m : Memory) (views : List View) (ops : List Operand) (j : Nat) :
    Except Stop Lanes := do
  let offsets ← lift (Operand.element (.memory .load) ops 1 j)
  if ops.length = 4 then
    let gate ← lift (Operand.element (.memory .load) ops 2 j)
    let default ← lift (Operand.element (.memory .load) ops 3 j)
    loadGated m views offsets gate default j
  else load m views offsets j

def loadElements (m : Memory) (views : List View) (ops : List Operand) (j : Nat) :
    Nat → Except Stop (List Lanes)
  | 0 => .ok []
  | count + 1 => do
    let lanes ← loadElement m views ops j
    return lanes :: (← loadElements m views ops (j + 1) count)

def loadImage (m : Memory) (views : List View) (height width : Nat) (xs ys : Lanes) :
    Except Stop (List Lanes) :=
  (List.range Memory.channels).mapM fun c =>
    (List.range views.length).mapM fun lane => do
      let x ← lookup xs lane
      let y ← lookup ys lane
      let v ← lookup views lane
      lift (m.loadTexel v height width x y c)

/-- The lanes of the buffer that an access goes to. -/
def target (a : Access) (ops : List Operand) : Except Stop (List View) :=
  match ops with
  | [] => .error (.fault (.invalidOperands (.memory a) .notBuffer))
  | o :: _ => lift (Operand.views a o.values)

def typeOf (ops : List Operand) (i : Nat) : Except Stop DType :=
  lookup (ops.map (·.type)) i

def loadLinear (m : Memory) (d : DType) (views : List View) (ops : List Operand) :
    Except Stop LaneValues :=
  if d.isVector then (loadElements m views ops 0 d.count).map .vector
  else (loadElement m views ops 0).map .scalar

def loadTexels (m : Memory) (d : DType) (views : List View) (height width : Nat)
    (ops : List Operand) : Except Stop LaneValues :=
  if d.count ≠ Memory.channels then
    .error (.fault (.invalidOperands (.memory .load) (.imageLoad d)))
  else do
    let (xs, ys) ← lift (Operand.coordinates .load ops)
    (loadImage m views height width xs ys).map .vector

def loadValue (m : Memory) (d : DType) (ops : List Operand) : Except Stop LaneValues := do
  let views ← target .load ops
  let t ← typeOf ops 0
  match t.shape? with
  | some (h, w) => loadTexels m d views h w ops
  | none => loadLinear m d views ops

/-! ## Stores -/

def writes (views : List View) (offsets values : Lanes) (delta : Int) : Except Stop (List Write) :=
  (List.range views.length).mapM fun lane => do
    let o ← lookup offsets lane
    let v ← lookup views lane
    let x ← lookup values lane
    return ⟨v, Memory.address .store o delta, x⟩

def vectorWrites (views : List View) (offsets : Lanes) (elements : List Lanes) :
    Except Stop (List Write) :=
  (elements.zipIdx.mapM fun e => writes views offsets e.1 e.2).map List.flatten

/-- The writes of one channel. -/
def channelWrites (views : List View) (height width : Nat) (xs ys values : Lanes) (channel : Nat) :
    Except Stop (List Write) :=
  (List.range views.length).mapM fun lane => do
    let x ← lookup xs lane
    let y ← lookup ys lane
    let v ← lookup views lane
    let a ← lookup values lane
    return ⟨v, Memory.texelAddress height width x y channel, a⟩

def texelWrites (views : List View) (height width : Nat) (xs ys : Lanes) (elements : List Lanes) :
    Except Stop (List Write) :=
  (elements.zipIdx.mapM fun e => channelWrites views height width xs ys e.1 e.2).map List.flatten

def imageWrites (views : List View) (height width : Nat) (xs ys : Lanes) (elements : List Lanes) :
    Except Stop (List Write) :=
  if elements.length ≠ Memory.channels then
    .error (.fault (.invalidOperands (.memory .store) (.channelCount elements.length)))
  else texelWrites views height width xs ys elements

def texelStore (views : List View) (height width : Nat) (ops : List Operand) (value : DType) :
    Except Stop (List Write) :=
  if value.count ≠ Memory.channels then
    .error (.fault (.invalidOperands (.memory .store) (.imageStore value)))
  else do
    let (xs, ys) ← lift (Operand.coordinates .store ops)
    let elements ← lift (Operand.vector (.memory .store) ops 2)
    imageWrites views height width xs ys elements

def linearStore (views : List View) (ops : List Operand) (value : DType) :
    Except Stop (List Write) := do
  let offsets ← lift (Operand.scalar (.memory .store) ops 1)
  if value.isVector then
    let elements ← lift (Operand.vector (.memory .store) ops 2)
    vectorWrites views offsets elements
  else
    let values ← lift (Operand.scalar (.memory .store) ops 2)
    writes views offsets values 0

def storeWrites (pc : Nat) (ops : List Operand) : Except Stop (List Write) :=
  if 3 < ops.length then .error (.fault (.malformed pc .gatedStore))
  else if ops.length ≠ 3 then .error (.fault (.malformed pc (.storeOperands ops.length)))
  else do
    let views ← target .store ops
    let value ← typeOf ops 2
    let t ← typeOf ops 0
    match t.shape? with
    | some (h, w) => texelStore views h w ops value
    | none => linearStore views ops value

/-! ## Arithmetic -/

def alu (op : AluOp) (d : DType) (ops : List Operand) : Except Stop LaneValues := do
  let rows ← lift (Operand.scalars (.alu op) ops)
  let lanes := leadingCount rows
  if rows.any fun r => r.length != lanes then
    .error (.fault (.invalidOperands (.alu op) (.laneCounts (rows.map List.length))))
  else if !op.mixesTypes && ops.any fun o => o.type != d then
    .error (.fault (.typeMismatch op (.declared d (ops.map (·.type)))))
  else
    ((List.range lanes).mapM fun lane => do
      let arguments ← rows.mapM (lookup · lane)
      lift (Alu.execute op d.element arguments)).map .scalar

def arithmetic (pc : Nat) (d : DType) (arg : Arg) (ops : List Operand) : Except Stop LaneValues :=
  match arg with
  | .operation op => alu op d ops
  | _ => .error (.fault (.malformed pc .operation))

/-! ## Tensor cores -/

/-- The entry of a matrix that a lane holds in one of its elements. -/
def entry (x : List Lanes) (element lane : Nat) : Except Stop Value := do
  let l ← lookup x element
  lookup l lane

def metalFactor (x : List Lanes) (i j base : Nat) : Except Stop Value :=
  entry x (i % 2) (base + i / 2 % 2 + j % 4 * 2 + i / 4 * 8 + j / 4 * 16)

def rdnaFactor (x : List Lanes) (i j base : Nat) : Except Stop Value := do
  let low ← entry x i (base + j)
  let high ← entry x i (base + j + 16)
  if low.numericEq high then .ok low
  else .error (.fault (.invalidOperands .wmma (.notDuplicated i (base + j) low (base + j + 16) high)))

def first (core : TensorCore) (x : List Lanes) (i j base : Nat) : Except Stop Value :=
  match core with
  | .metal => metalFactor x i j base
  | .rdna => rdnaFactor x i j base

def second (core : TensorCore) (x : List Lanes) (i j base : Nat) : Except Stop Value :=
  match core with
  | .metal => metalFactor x i j base
  | .rdna => rdnaFactor x j i base

def addTerm (core : TensorCore) (a b : List Lanes) (row col base : Nat) (sum : Binary64)
    (k : Nat) : Except Stop Binary64 := do
  let x ← first core a k col base
  let y ← second core b row k base
  return sum.add (x.toFloat.mul y.toFloat)

def cell (core : TensorCore) (a b c : List Lanes) (out : ScalarType) (base lane element : Nat) :
    Except Stop Value := do
  let (row, col) := core.position lane element
  let start ← entry c element (base + lane)
  let sum ← (List.range core.depth).foldlM (addTerm core a b row col base) start.toFloat
  lift ((Value.ofFloat sum out).mapError fun e => .conversion (.tile e))

def cells (core : TensorCore) (a b c : List Lanes) (out : ScalarType) (lanes : Nat) :
    Except Stop (List (List Value)) :=
  (List.range lanes).mapM fun l =>
    (List.range core.sumElements).mapM fun e =>
      cell core a b c out (l / TensorCore.groupSize * TensorCore.groupSize)
        (l % TensorCore.groupSize) e

def multiply (core : TensorCore) (a b c : List Lanes) (out : ScalarType) :
    Except Stop (List Lanes) := do
  let lanes := leadingCount c
  lift (TensorCore.checkMatrix .a a core.factorElements lanes)
  lift (TensorCore.checkMatrix .b b core.factorElements lanes)
  lift (TensorCore.checkMatrix .c c core.sumElements lanes)
  if lanes = 0 ∨ lanes % TensorCore.groupSize ≠ 0 then
    .error (.fault (.invalidOperands .wmma (.laneGroups TensorCore.groupSize lanes)))
  else
    (cells core a b c out lanes).map fun rows =>
      (List.range core.sumElements).map fun e => rows.map fun r => r.getD e (.bool false)

def multiplyAccumulate (pc : Nat) (d : DType) (arg : Arg) (ops : List Operand) :
    Except Stop LaneValues :=
  match arg with
  | .tag tag => do
    let core ← lift (TensorCore.ofTag tag)
    let a ← lift (Operand.vector .wmma ops 0)
    let b ← lift (Operand.vector .wmma ops 1)
    let c ← lift (Operand.vector .wmma ops 2)
    (multiply core a b c d.element).map .vector
  | _ => .error (.fault (.malformed pc .tag))

/-! ## Coordinates -/

/-- A coordinate of a point, its axes numbered from x. -/
def axis (x : Point) (dim : Nat) : Except Stop Nat := lookup [x.x, x.y, x.z] dim

def coordinates? (c : Context) (dim : Nat) (name : String) : Except Stop (Option (List Nat)) :=
  match name.toList with
  | 'g' :: _ => (axis c.point dim).map fun n => some (c.warp.splat n)
  | 'l' :: _ =>
    ((List.range c.warp.laneCount).mapM fun lane => do
      let x ← lookup c.warp.lanes lane
      axis x dim).map some
  | _ => .ok none

def special (c : Context) (d : DType) (arg : Arg) : Except Stop Context :=
  match arg with
  | .axis dim name =>
    if 3 ≤ dim then .error (.fault (.malformed c.pc .axis))
    else do
      match ← coordinates? c dim name with
      | some ns =>
        let lanes ← lift (ns.mapM fun (n : Nat) => conversion (Value.ofInt n d.element))
        return c.define (.scalar lanes)
      | none =>
        if c.values.contains c.pc then .ok c else .error (.fault (.noValue c.pc .special))
  | _ => .error (.fault (.malformed c.pc .axis))

/-! ## Steps -/

/-- The operands of the instruction at the current position. -/
def gather (p : Program) (c : Context) : Except Stop (List Operand) := do
  let u ← lookup p.uops c.pc
  lift (Lockstep.gather p u c)

def produce (p : Program) (u : Uop) (d : DType) (c : Context) (ops : List Operand) :
    Except Stop Context :=
  match u.kind with
  | .special => special c d u.arg
  | .load => (loadValue c.memory d ops).map c.define
  | .wmma => (multiplyAccumulate c.pc d u.arg ops).map c.define
  | .alu => (arithmetic c.pc d u.arg ops).map c.define
  | _ => lift (Lockstep.produce p u d c ops)

def store (c : Context) (ops : List Operand) : Context × Except Stop Control :=
  match storeWrites c.pc ops with
  | .error s => (c, .error s)
  | .ok ws =>
    let (memory, r) := c.memory.perform ws
    ({ c with memory := memory }, lift (r.map fun _ => .proceed))

def define (p : Program) (u : Uop) (c : Context) (ops : List Operand) :
    Context × Except Stop Control :=
  match u.dtype with
  | none => (c, .error (.fault (.malformed c.pc (.missingType u.kind))))
  | some d =>
    let c := { c with types := c.types.insert c.pc d }
    match u.kind with
    | .loop => (Loop.visit c d ops).map id lift
    | _ =>
      match produce p u d c ops with
      | .ok c => (c, .ok .proceed)
      | .error s => (c, .error s)

def execute (p : Program) (u : Uop) (c : Context) : Context × Except Stop Control :=
  match u.kind with
  | .endLoop => (closeLoop u c).map id lift
  | .barrier | .ifStart | .endIf => (c, .ok .proceed)
  | k =>
    match gather p c with
    | .error s => (c, .error s)
    | .ok ops => if k = .store then store c ops else define p u c ops

/-- The instruction at the current position, with every element looked up by its
number. -/
def step (p : Program) (c : Context) : Context × Except Stop Control :=
  match p.get? c.pc with
  | none => (c, .ok .halt)
  | some u => execute p u { c with instructions := c.instructions + 1 }

/-! ## Lookups that succeed -/

@[simp] theorem lift_ok (a : α) : lift (.ok a : Except Fault α) = .ok a := rfl

theorem lift_bind (x : Except Fault α) (f : α → Except Fault β) :
    lift (x >>= f) = lift x >>= fun a => lift (f a) := by
  cases x <;> rfl

theorem lift_map (x : Except Fault α) (f : α → β) : lift (x.map f) = (lift x).map f := by
  cases x <;> rfl

theorem lift_ite (b : Prop) [Decidable b] (x y : Except Fault α) :
    lift (if b then x else y) = if b then lift x else lift y := by
  split <;> rfl

theorem lift_mapM (f : α → Except Fault β) (l : List α) :
    lift (l.mapM f) = l.mapM fun a => lift (f a) := by
  induction l with
  | nil => rfl
  | cons a l ih =>
    rw [List.mapM_cons, List.mapM_cons, lift_bind]
    congr 1
    funext b
    rw [lift_bind, ih]
    rfl

theorem lift_foldlM (f : β → α → Except Fault β) (l : List α) (b : β) :
    lift (l.foldlM f b) = l.foldlM (fun b a => lift (f b a)) b := by
  induction l generalizing b with
  | nil => rfl
  | cons a l ih =>
    rw [List.foldlM_cons, List.foldlM_cons, lift_bind]
    congr 1
    funext b'
    exact ih b'

theorem lookup_eq {l : List α} {i : Nat} (h : i < l.length) : lookup l i = .ok l[i] := by
  rw [lookup, List.getElem?_eq_getElem h]

end Lockstep.Strict
