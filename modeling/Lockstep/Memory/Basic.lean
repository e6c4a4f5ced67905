import Lockstep.Fault
import Lockstep.Wide

/-!
# Memory

The buffers that one grid point sees: those of the caller, bound one by one in
program order, and those it allocates itself. Single elements are read and
written with bounds checked.
-/

namespace Lockstep

/-- The buffers a program can reach. -/
structure Memory where
  globals : List Buffer
  /-- how many buffers of the caller are bound -/
  bound : Nat
  scratch : List Buffer
  deriving DecidableEq

namespace Memory

def ofBuffers (bs : List Buffer) : Memory := ⟨bs, 0, []⟩

def buffer? (m : Memory) : BufferRef → Option Buffer
  | .global n => m.globals[n]?
  | .scratch n => m.scratch[n]?

def setBuffer (m : Memory) (r : BufferRef) (b : Buffer) : Memory :=
  match r with
  | .global n => { m with globals := m.globals.set n b }
  | .scratch n => { m with scratch := m.scratch.set n b }

/-- Binds the next buffer of the caller; it counts as bound even when its bytes
do not fit the format. There is nothing to bind once all are bound. -/
def bind? (m : Memory) (t : ScalarType) : Option (Except Fault View × Memory) :=
  m.globals[m.bound]?.map fun b =>
    let view := (b.checkView t).map fun _ => View.mk (.global m.bound) t
    (view.mapError fun e => .conversion (.view e), { m with bound := m.bound + 1 })

/-- Adds a zeroed buffer. -/
def allocate (m : Memory) (t : ScalarType) (length : Nat) : View × Memory :=
  (⟨.scratch m.scratch.length, t⟩, { m with scratch := m.scratch ++ [.zeros t length] })

def resolve (m : Memory) (v : View) (a : Access) : Except Fault Buffer :=
  match m.buffer? v.buffer with
  | some b => .ok b
  | none => .error (.invalidOperands (.memory a) (.unbound v.buffer))

/-- The position of an element, if it lies within the view. -/
def slot (b : Buffer) (t : ScalarType) (i : Int) (a : Access) : Except Fault Nat :=
  if 0 ≤ i ∧ i < b.lengthAs t then .ok i.toNat
  else .error (.outOfBounds a i (b.lengthAs t))

def read (m : Memory) (v : View) (i : Int) : Except Fault Value := do
  let b ← m.resolve v .load
  let n ← slot b v.format i .load
  match b.readAs? v.format n with
  | some x => return x
  | none => throw (.outOfBounds .load i (b.lengthAs v.format))

def write (m : Memory) (v : View) (i : Int) (x : Value) : Except Fault Memory := do
  let b ← m.resolve v .store
  let n ← slot b v.format i .store
  match b.writeAs v.format n x with
  | .ok b => return m.setBuffer v.buffer b
  | .error e => throw (.conversion (.stored x v.format e))

/-- An address is an integer of any type. -/
def offset (x : Value) (a : Access) : Except Fault Int :=
  match x.toInt? with
  | some i => .ok i
  | none => .error (.invalidOperands (.memory a) (.offset x))

end Memory

end Lockstep
