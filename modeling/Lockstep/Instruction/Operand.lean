import Lockstep.Context

/-!
# Operands

The values and types that an instruction finds at the positions it names, and
the ways in which it may ask for one of them.
-/

namespace Lockstep

/-- What an instruction reads at one operand position. -/
structure Operand where
  values : LaneValues
  type : DType
  deriving DecidableEq

/-- What is known about one operand position. -/
def Context.operand (c : Context) (s : Nat) : Except Fault Operand :=
  match c.values.get? s with
  | none => .error (.malformed c.pc (.operandValue s))
  | some v =>
    match c.types.get? s with
    | none => .error (.malformed c.pc (.operandType s))
    | some t => .ok ⟨v, t⟩

/-- The value operands of an instruction, in order. -/
def gather (p : Program) (u : Uop) (c : Context) : Except Fault (List Operand) :=
  (p.valueOperands u).mapM c.operand

namespace Operand

/-- Operand `i`, which the instruction cannot do without. -/
def require (pc : Nat) (ops : List Operand) (i : Nat) : Except Fault Operand :=
  match ops[i]? with
  | some o => .ok o
  | none => .error (.malformed pc (.missingOperand i))

def scalar (op : Operation) (ops : List Operand) (i : Nat) : Except Fault Lanes :=
  match ops[i]?.bind (·.values.scalar?) with
  | some l => .ok l
  | none => .error (.invalidOperands op (.notScalar i))

def vector (op : Operation) (ops : List Operand) (i : Nat) : Except Fault (List Lanes) :=
  match ops[i]?.bind (·.values.vector?) with
  | some es => .ok es
  | none => .error (.invalidOperands op (.notVector i))

/-- Element `j` of operand `i`. -/
def element (op : Operation) (ops : List Operand) (i j : Nat) : Except Fault Lanes :=
  match ops[i]?.bind (·.values.element? j) with
  | some l => .ok l
  | none => .error (.invalidOperands op (.noElement i j))

/-- The lanes of each operand, all of which are scalars. -/
def scalars (op : Operation) (ops : List Operand) : Except Fault (List Lanes) :=
  ops.zipIdx.mapM fun (o, i) =>
    match o.values.scalar? with
    | some l => .ok l
    | none => .error (.invalidOperands op (.notScalar i))

/-- The views of an operand that has to be a buffer. -/
def views (a : Access) (values : LaneValues) : Except Fault (List View) :=
  match values.buffer? with
  | some vs => .ok vs
  | none => .error (.invalidOperands (.memory a) .notBuffer)

/-- Columns and rows for an access to an image, from the first two elements of
operand 1. -/
def coordinates (a : Access) (ops : List Operand) : Except Fault (Lanes × Lanes) :=
  match ops[1]?.bind (·.values.vector?) with
  | some (xs :: ys :: _) => .ok (xs, ys)
  | _ => .error (.invalidOperands (.memory a) .noCoordinates)

/-- The value of operand `i` on the first lane, which bounds a loop. -/
def firstLane (pc : Nat) (ops : List Operand) (i : Nat) : Except Fault Value := do
  let o ← require pc ops i
  match o.values.scalar?.bind List.head? with
  | some v => return v
  | none => throw (.malformed pc (.loopBound i))

end Operand

end Lockstep
