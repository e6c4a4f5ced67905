import Lockstep.Instruction.Compute
import Lockstep.Instruction.Loop
import Lockstep.Instruction.Store

/-!
# Steps

One instruction on all lanes. A step gives the context after it even when it
fails: a store that fails half way leaves its earlier writes done.
-/

namespace Lockstep

/-- Gives the value of the second operand to the accumulator, which is the first
operand, and to the instruction itself. -/
def carry (p : Program) (u : Uop) (c : Context) (ops : List Operand) : Except Fault Context :=
  match p.valueOperands u with
  | [] => .error (.malformed c.pc .accumulator)
  | accumulator :: _ => do
    let o ← Operand.require c.pc ops 1
    return { c with values := c.values.insert accumulator o.values }.define o.values

/-- What an instruction makes of its operands. Kinds that do more than define
values change nothing here. -/
def produce (p : Program) (u : Uop) (d : DType) (c : Context) (ops : List Operand) :
    Except Fault Context :=
  match u.kind with
  | .defineGlobal => c.defineGlobal d
  | .defineLocal => c.defineLocal d u.arg
  | .defineVar => c.defineVar d
  | .special => c.special d u.arg
  | .const | .defineAcc => c.constant d u.arg
  | .cast => (cast c.pc d ops).map c.define
  | .load => (load c.memory d ops).map c.define
  | .phi => carry p u c ops
  | .gep => (pick c.pc u.arg ops).map c.define
  | .wmma => (multiplyAccumulate c.pc d u.arg ops).map c.define
  | .alu => (arithmetic c.pc d u.arg ops).map c.define
  | .loop | .endLoop | .barrier | .ifStart | .endIf | .store => .ok c

/-- Records where the loop ends and goes back to it. -/
def closeLoop (u : Uop) (c : Context) : Context × Except Fault Control :=
  match u.src with
  | [] => (c, .error (.malformed c.pc .endLoopOperand))
  | l :: _ => ({ c with loopEnds := c.loopEnds.insert l c.pc }, .ok (.jump l))

def store (c : Context) (ops : List Operand) : Context × Except Fault Control :=
  match storeWrites c.pc ops with
  | .error f => (c, .error f)
  | .ok ws =>
    let (memory, r) := c.memory.perform ws
    ({ c with memory := memory }, r.map fun _ => .proceed)

/-- An instruction that declares a type; the type is on record before the value
is computed. -/
def define (p : Program) (u : Uop) (c : Context) (ops : List Operand) :
    Context × Except Fault Control :=
  match u.dtype with
  | none => (c, .error (.malformed c.pc (.missingType u.kind)))
  | some d =>
    let c := { c with types := c.types.insert c.pc d }
    match u.kind with
    | .loop => Loop.visit c d ops
    | _ =>
      match produce p u d c ops with
      | .ok c => (c, .ok .proceed)
      | .error f => (c, .error f)

/-- An instruction with its operands. -/
def execute (p : Program) (u : Uop) (c : Context) : Context × Except Fault Control :=
  match u.kind with
  | .endLoop => closeLoop u c
  | .barrier | .ifStart | .endIf => (c, .ok .proceed)
  | k =>
    match gather p u c with
    | .error f => (c, .error f)
    | .ok ops => if k = .store then store c ops else define p u c ops

/-- The instruction at the current position, counted whether it fails or not.
There is none past the end of the program. -/
def step (p : Program) (c : Context) : Context × Except Fault Control :=
  match p.get? c.pc with
  | none => (c, .ok .halt)
  | some u => execute p u { c with instructions := c.instructions + 1 }

end Lockstep
