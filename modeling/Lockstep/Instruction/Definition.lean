import Lockstep.Instruction.Operand

/-!
# Definitions

The instructions that bring something into a program from outside: buffers,
launch values, coordinates and literals. They have no operands.
-/

namespace Lockstep

/-- The element format of a buffer of the declared type. -/
def bufferFormat (pc : Nat) (d : DType) : Except Fault ScalarType :=
  match d.format? with
  | some t => .ok t
  | none => .error (.malformed pc (.bufferFormat d))

def conversion (r : Except ConvertError Value) : Except Fault Value :=
  r.mapError fun e => .conversion (.value e)

namespace Context

/-- Binds the next buffer of the caller on every lane. -/
def defineGlobal (c : Context) (d : DType) : Except Fault Context := do
  let t ← bufferFormat c.pc d
  match c.memory.bind? t with
  | none => throw (.malformed c.pc .bufferArgument)
  | some (r, memory) =>
    let view ← r
    return { c with memory := memory }.define (.buffer (c.warp.splat view))

/-- Allocates a buffer that all lanes share. -/
def defineLocal (c : Context) (d : DType) (arg : Arg) : Except Fault Context := do
  let t ← bufferFormat c.pc d
  match arg with
  | .buffer _ size =>
    let (view, memory) := c.memory.allocate t size
    return { c with memory := memory }.define (.buffer (c.warp.splat view))
  | _ => throw (.malformed c.pc .bufferSize)

/-- Binds the next launch value on every lane. -/
def defineVar (c : Context) (d : DType) : Except Fault Context :=
  match c.launchValues[c.bound]? with
  | none => .error (.malformed c.pc .launchValue)
  | some v => do
    let v ← conversion (v.convert d.element)
    return { c with bound := c.bound + 1 }.define (.scalar (c.warp.splat v))

/-- The coordinates along an axis, lane by lane; a name of neither kind has
none. -/
def coordinates? (c : Context) (dim : Nat) (name : String) : Option (List Nat) :=
  match name.toList with
  | 'g' :: _ => (c.point.axis? dim).map c.warp.splat
  | 'l' :: _ => c.warp.lanes.mapM (·.axis? dim)
  | _ => none

/-- Reads a coordinate. With a name of neither kind nothing is defined, which is
a fault unless the instruction has a value already. -/
def special (c : Context) (d : DType) (arg : Arg) : Except Fault Context :=
  match arg with
  | .axis dim name =>
    if 3 ≤ dim then .error (.malformed c.pc .axis)
    else
      match c.coordinates? dim name with
      | some ns => do
        let lanes ← ns.mapM fun (n : Nat) => conversion (Value.ofInt n d.element)
        return c.define (.scalar lanes)
      | none =>
        if c.values.contains c.pc then .ok c else .error (.noValue c.pc .special)
  | _ => .error (.malformed c.pc .axis)

/-- The literal on every lane, and in every element of a vector. -/
def constant (c : Context) (d : DType) (arg : Arg) : Except Fault Context :=
  match arg with
  | .literal l => do
    let v ← conversion (l.toValue d.element)
    let lanes := c.warp.splat v
    return c.define (if d.isVector then .vector (List.replicate d.count lanes) else .scalar lanes)
  | _ => .error (.malformed c.pc .literal)

end Context

end Lockstep
