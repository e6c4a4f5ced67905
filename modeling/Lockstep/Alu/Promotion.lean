import Lockstep.Fault

/-!
# Promotion

The type in which an operation is evaluated: the one of highest rank among its
operands and its declared type. Truth values go with every type; signed and
unsigned integers never go together; a float takes an integer only when it is at
least as wide.
-/

namespace Lockstep

namespace ScalarType

/-- The first type of highest rank, or bool if there is no other. -/
def highest (ts : List ScalarType) : ScalarType :=
  ts.foldl (fun best t => if best.rank < t.rank then t else best) bool

/-- Bits of the widest integer type. -/
def widestInt (ts : List ScalarType) : Nat :=
  ((ts.filter isInt).map bits).foldl max 0

/-- The type of highest rank, if one type takes them all. -/
def highestOrder? (ts : List ScalarType) : Option ScalarType :=
  if ts.any isSigned && ts.any isUnsigned then none
  else if (highest ts).isFloat && decide ((highest ts).bits < widestInt ts) then none
  else some (highest ts)

end ScalarType

/-- Operands as they are evaluated, and the type of the evaluation. -/
structure Promoted where
  type : ScalarType
  operands : List Value
  deriving DecidableEq

namespace Alu

/-- A truth value is read as 0 or 1 of the declared type. -/
def readOperand (declared : ScalarType) (v : Value) : Except Fault Value :=
  if v.type.isBool then
    (v.convert declared).mapError fun e => .conversion (.value e)
  else .ok v

def promote (op : AluOp) (declared : ScalarType) (operands : List Value) :
    Except Fault Promoted := do
  let vs ← operands.mapM (readOperand declared)
  let ts := vs.map Value.type ++ [declared]
  match ScalarType.highestOrder? ts with
  | some t => return ⟨t, vs⟩
  | none => throw (.typeMismatch op (.irreconcilable ts))

end Alu

end Lockstep
