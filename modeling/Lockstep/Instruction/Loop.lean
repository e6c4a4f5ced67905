import Lockstep.Alu.Execute
import Lockstep.Instruction.Definition

/-!
# Loops

The value of a loop is its counter, and its absence says that the loop is not
running. A loop is entered with its start value; each later visit adds one and
leaves when the first lane has reached the end bound. The test follows the
addition, so the body runs at least once.
-/

namespace Lockstep

/-- Where control goes after an instruction. -/
inductive Control where
  | proceed
  | jump (target : Nat)
  | halt
  deriving DecidableEq

namespace Loop

/-- One more, in the type of the counter or wider. -/
def increment (v : Value) : Except Fault Value := do
  let one ← conversion (Value.ofInt 1 v.type)
  Alu.execute .add v.type [v, one]

/-- The first lane has the end value; without lanes there is nothing to count. -/
def reached (counter : Lanes) (stop : Value) : Bool :=
  match counter with
  | [] => true
  | v :: _ => v.numericEq stop

def enter (c : Context) (d : DType) (ops : List Operand) : Except Fault Context := do
  let start ← Operand.firstLane c.pc ops 0
  let start ← conversion (start.convert d.element)
  return c.define (.scalar (c.warp.splat start))

/-- Stops counting, and continues after the recorded end of the loop. -/
def leave (c : Context) : Context × Except Fault Control :=
  ({ c with values := c.values.erase c.pc },
    match c.loopEnds.get? c.pc with
    | some e => .ok (.jump (e + 1))
    | none => .error (.malformed c.pc .loopEnd))

/-- The next counter and the end bound. -/
def advance (pc : Nat) (counter : Lanes) (ops : List Operand) : Except Fault (Lanes × Value) := do
  let next ← counter.mapM increment
  let stop ← Operand.firstLane pc ops 1
  return (next, stop)

def visit (c : Context) (d : DType) (ops : List Operand) : Context × Except Fault Control :=
  match c.values.get? c.pc with
  | none =>
    match enter c d ops with
    | .ok c => (c, .ok .proceed)
    | .error f => (c, .error f)
  | some (.scalar counter) =>
    match advance c.pc counter ops with
    | .error f => (c, .error f)
    | .ok (next, stop) =>
      if reached next stop then leave c else (c.define (.scalar next), .ok .proceed)
  | some _ => (c, .error (.malformed c.pc .loopCounter))

end Loop

end Lockstep
