import Lockstep.Instruction.Operand
import Lockstep.Memory.Access

/-!
# Stores

A store is worked out as the list of its writes before the first is done.
-/

namespace Lockstep

/-- The writes to an image: a vector of four channels at a column and a row. -/
def texelStore (views : List View) (height width : Nat) (ops : List Operand) (value : Operand) :
    Except Fault (List Write) :=
  if value.type.count ≠ Memory.channels then
    .error (.invalidOperands (.memory .store) (.imageStore value.type))
  else do
    let (xs, ys) ← Operand.coordinates .store ops
    let elements ← Operand.vector (.memory .store) ops 2
    Memory.imageWrites views height width xs ys elements

/-- The declared type of the value says whether it is stored as a vector. -/
def linearStore (views : List View) (ops : List Operand) (value : Operand) :
    Except Fault (List Write) := do
  let offsets ← Operand.scalar (.memory .store) ops 1
  if value.type.isVector then
    return Memory.vectorWrites views offsets (← Operand.vector (.memory .store) ops 2)
  else return Memory.writes views offsets (← Operand.scalar (.memory .store) ops 2) 0

/-- The writes of a store of buffer, offset and value. -/
def storeWrites (pc : Nat) (ops : List Operand) : Except Fault (List Write) :=
  match ops with
  | [target, _, value] => do
    let views ← Operand.views .store target.values
    match target.type.shape? with
    | some (h, w) => texelStore views h w ops value
    | none => linearStore views ops value
  | _ =>
    if 3 < ops.length then .error (.malformed pc .gatedStore)
    else .error (.malformed pc (.storeOperands ops.length))

end Lockstep
