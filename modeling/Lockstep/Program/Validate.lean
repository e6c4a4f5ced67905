import Lockstep.Fault

/-!
# Well-formed programs

Checks made before a program is launched: operands come before their users, what
has a value has a type, every kind has its number of operands, and the end of a
loop names a loop.
-/

namespace Lockstep.Program

/-- The kind takes this many value operands. The end of a loop is counted by all
operands it names. -/
def takes (u : Uop) (n : Nat) : Bool :=
  match u.kind with
  | .defineGlobal | .defineLocal | .defineVar | .defineAcc | .special | .const => true
  | .barrier | .endIf => true
  | .loop | .phi => n == 2
  | .endLoop => u.src.length == 1
  | .ifStart | .gep | .cast | .alu => decide (1 ≤ n)
  | .load => n == 2 || n == 4
  | .store | .wmma => n == 3

def isLoopAt (p : Program) (pc : Nat) : Bool :=
  match p.get? pc with
  | some u => u.kind == .loop
  | none => false

/-- What is wrong with the instruction at a position, if anything is. -/
def defect? (p : Program) (pc : Nat) (u : Uop) : Option Malformation :=
  let n := (p.valueOperands u).length
  match u.src.find? fun s => decide (pc ≤ s) with
  | some s => some (.lateOperand s)
  | none =>
    if !u.kind.isVoid && u.dtype.isNone then some (.missingType u.kind)
    else if !takes u n then some (.operandCount u.kind n)
    else
      match u.kind, u.src with
      | .endLoop, l :: _ => if p.isLoopAt l then none else some (.endLoopTarget l)
      | _, _ => none

/-- The first defect from a position on. -/
def firstDefect? (p : Program) (pc : Nat) : List Uop → Option (Nat × Malformation)
  | [] => none
  | u :: r =>
    match p.defect? pc u with
    | some m => some (pc, m)
    | none => p.firstDefect? (pc + 1) r

def validate (p : Program) : Except Fault Unit :=
  match p.firstDefect? 0 p.uops with
  | some (pc, m) => .error (.malformed pc m)
  | none => .ok ()

end Lockstep.Program
