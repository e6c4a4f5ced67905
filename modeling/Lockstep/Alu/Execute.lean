import Lockstep.Alu.Operation

/-!
# Evaluation of one lane

Operands are promoted, the operation is applied, and its number is represented
in the evaluation type. A number out of range is tried once more in the widest
type of the same family.
-/

namespace Lockstep

namespace Alu

/-- Promotes the operands. The condition of a selection takes no part: only its
truth matters. -/
def prepare (op : AluOp) (declared : ScalarType) (operands : List Value) :
    Except Fault Promoted :=
  match op, operands with
  | .select, [] => .error (.invalidOperands (.alu op) .noCondition)
  | .select, c :: r =>
    (promote op declared r).map fun p => { p with operands := .bool c.truthy :: p.operands }
  | _, _ => promote op declared operands

def numbers (op : AluOp) (p : Promoted) : List Number :=
  match op, p.operands with
  | .select, c :: r => .truth c.truthy :: r.map (operandNumber p.type.family)
  | _, vs => vs.map (operandNumber p.type.family)

/-- The evaluation type and the number before it is represented. -/
def evaluate (op : AluOp) (declared : ScalarType) (operands : List Value) :
    Except Fault (ScalarType × Number) := do
  let p ← prepare op declared operands
  if !op.isSupported then throw (.unsupported op)
  match apply op p.type (numbers op p) with
  | .ok n => return (p.type, n)
  | .error .undefined => throw (.invalidOperands (.alu op) (.noResult p.operands p.type))
  | .error .beyond => throw (.overflow op p.type.upgraded none)

/-- A truth value stays one in every type. -/
def attempt (n : Number) (t : ScalarType) : Except ConvertError Value :=
  match n with
  | .truth b => .ok (.bool b)
  | n => Value.ofNumber n t

/-- The value of a number in a type, or else in the widest type of the family. -/
def represent (op : AluOp) (t : ScalarType) (n : Number) : Except Fault Value :=
  match attempt n t with
  | .ok v => .ok v
  | .error e@(.incompatible _ _) => .error (.conversion (.result op e))
  | .error (.overflow _ _) =>
    match attempt n t.upgraded with
    | .ok v => .ok v
    | .error e@(.incompatible _ _) => .error (.conversion (.result op e))
    | .error (.overflow m _) => .error (.overflow op t.upgraded (some m))

/-- The number does not fit its evaluation type. -/
def needsUpgrade (t : ScalarType) (n : Number) : Bool :=
  match attempt n t with
  | .error (.overflow _ _) => true
  | _ => false

/-- One lane of an operation with a declared result type. -/
def execute (op : AluOp) (declared : ScalarType) (operands : List Value) : Except Fault Value := do
  let (t, n) ← evaluate op declared operands
  represent op t n

end Alu

end Lockstep
