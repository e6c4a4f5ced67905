import Lockstep.DType
import Lockstep.Literal
import Lockstep.Program.Kind

/-!
# Programs

A program is a list of micro-operations. The position of an instruction is its
identity: operands are positions, and every table of the interpreter is indexed
by position.
-/

namespace Lockstep

/-- The part of an instruction that is specific to its kind. -/
inductive Arg where
  | none
  | literal (l : Literal)
  | name (name : String)
  /-- name and element count of a local buffer -/
  | buffer (name : String) (size : Nat)
  /-- an axis; the first letter of the name picks the grid point (`g`) or the
  lane (`l`) -/
  | axis (dim : Nat) (name : String)
  | operation (op : AluOp)
  | index (i : Nat)
  | tag (tag : String)
  deriving DecidableEq

/-- One instruction. Its operands are positions of earlier ones. -/
structure Uop where
  kind : Kind
  dtype : Option DType
  src : List Nat
  arg : Arg
  deriving DecidableEq

/-- A sequence of instructions; a position counts from zero. -/
structure Program where
  uops : List Uop
  deriving DecidableEq

namespace Program

def length (p : Program) : Nat := p.uops.length

def get? (p : Program) (pc : Nat) : Option Uop := p.uops[pc]?

/-- There is a void instruction at the position. -/
def isVoidAt (p : Program) (pc : Nat) : Bool :=
  match p.get? pc with
  | some u => u.kind.isVoid
  | none => false

/-- The operands of an instruction that are read for their values; an operand
that names a void instruction only orders the program. -/
def valueOperands (p : Program) (u : Uop) : List Nat :=
  u.src.filter fun s => !p.isVoidAt s

end Program

end Lockstep
