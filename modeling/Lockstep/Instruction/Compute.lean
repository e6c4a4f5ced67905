import Lockstep.Alu.Execute
import Lockstep.Instruction.Operand
import Lockstep.Memory.Access
import Lockstep.TensorCore

/-!
# Computations

The instructions whose value depends on their operands and on memory alone.
-/

namespace Lockstep

/-! ## Casts -/

/-- A vector is repacked, or packed from one scalar per element. -/
def castVector (pc : Nat) (d : DType) (ops : List Operand) : Except Fault LaneValues :=
  match ops with
  | [⟨.vector es, _⟩] =>
    if es.length = d.count then .ok (.vector es)
    else .error (.malformed pc (.castElements es.length d))
  | _ =>
    if ops.length = d.count then (Operand.scalars .cast ops).map .vector
    else .error (.malformed pc (.castOperands ops.length d))

def convertLanes (lanes : Lanes) (t : ScalarType) : Except ConvertError Lanes :=
  lanes.mapM (·.convert t)

/-- All lanes are converted, or none is if one cannot be. -/
def castScalar (d : DType) (ops : List Operand) : Except Fault LaneValues := do
  let lanes ← Operand.scalar .cast ops 0
  match convertLanes lanes d.element with
  | .ok converted => return .scalar converted
  | .error _ => return .scalar lanes

def cast (pc : Nat) (d : DType) (ops : List Operand) : Except Fault LaneValues :=
  if d.isVector then castVector pc d ops else castScalar d ops

/-! ## Loads -/

/-- Element `j` of a linear load; a fourth operand makes it gated. -/
def loadElement (m : Memory) (views : List View) (ops : List Operand) (j : Nat) :
    Except Fault Lanes := do
  let offsets ← Operand.element (.memory .load) ops 1 j
  if ops.length = 4 then
    let gate ← Operand.element (.memory .load) ops 2 j
    let default ← Operand.element (.memory .load) ops 3 j
    m.loadGated views offsets gate default j
  else m.load views offsets j

/-- So many elements from `j` on, up to the first that cannot be loaded. -/
def loadElements (m : Memory) (views : List View) (ops : List Operand) (j : Nat) :
    Nat → Except Fault (List Lanes)
  | 0 => .ok []
  | count + 1 => do
    let lanes ← loadElement m views ops j
    return lanes :: (← loadElements m views ops (j + 1) count)

def loadLinear (m : Memory) (d : DType) (views : List View) (ops : List Operand) :
    Except Fault LaneValues :=
  if d.isVector then (loadElements m views ops 0 d.count).map .vector
  else (loadElement m views ops 0).map .scalar

def loadTexels (m : Memory) (d : DType) (views : List View) (height width : Nat)
    (ops : List Operand) : Except Fault LaneValues :=
  if d.count ≠ Memory.channels then .error (.invalidOperands (.memory .load) (.imageLoad d))
  else do
    let (xs, ys) ← Operand.coordinates .load ops
    (m.loadImage views height width xs ys).map .vector

/-- The type of the buffer operand decides how it is addressed. -/
def load (m : Memory) (d : DType) (ops : List Operand) : Except Fault LaneValues :=
  match ops with
  | [] => .error (.invalidOperands (.memory .load) .notBuffer)
  | o :: _ => do
    let views ← Operand.views .load o.values
    match o.type.shape? with
    | some (h, w) => loadTexels m d views h w ops
    | none => loadLinear m d views ops

/-! ## Arithmetic -/

/-- The arguments of one lane. -/
def laneArguments (rows : List Lanes) (lane : Nat) : List Value :=
  rows.filterMap (·[lane]?)

/-- Lanes of the first operand. -/
def leadingCount : List Lanes → Nat
  | [] => 0
  | l :: _ => l.length

def alu (op : AluOp) (d : DType) (ops : List Operand) : Except Fault LaneValues := do
  let rows ← Operand.scalars (.alu op) ops
  let lanes := leadingCount rows
  if rows.any fun r => r.length != lanes then
    throw (.invalidOperands (.alu op) (.laneCounts (rows.map List.length)))
  if !op.mixesTypes && ops.any fun o => o.type != d then
    throw (.typeMismatch op (.declared d (ops.map (·.type))))
  let result ← (List.range lanes).mapM fun l => Alu.execute op d.element (laneArguments rows l)
  return .scalar result

/-! ## The rest -/

/-- One element of a vector. -/
def pick (pc : Nat) (arg : Arg) (ops : List Operand) : Except Fault LaneValues :=
  match arg with
  | .index i => do
    let o ← Operand.require pc ops 0
    match o.values.vector?.bind (·[i]?) with
    | some l => return .scalar l
    | none => throw (.invalidOperands .gep (.noSuchElement i))
  | _ => .error (.malformed pc .elementIndex)

def multiplyAccumulate (pc : Nat) (d : DType) (arg : Arg) (ops : List Operand) :
    Except Fault LaneValues :=
  match arg with
  | .tag tag => do
    let core ← TensorCore.ofTag tag
    let a ← Operand.vector .wmma ops 0
    let b ← Operand.vector .wmma ops 1
    let c ← Operand.vector .wmma ops 2
    (core.execute a b c d.element).map .vector
  | _ => .error (.malformed pc .tag)

def arithmetic (pc : Nat) (d : DType) (arg : Arg) (ops : List Operand) : Except Fault LaneValues :=
  match arg with
  | .operation op => alu op d ops
  | _ => .error (.malformed pc .operation)

end Lockstep
