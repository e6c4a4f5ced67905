import Lockstep.Engine
import Lockstep.Manifest.Basic
import Lockstep.Manifest.Failure

/-!
# Launches from manifests

The program that a manifest lists, the first contents of its buffers and the
extent of its launch.
-/

namespace Lockstep

namespace UopEntry

/-- A part that instructions of this kind need. -/
def need {α : Type} (k : Kind) (p : Part) : Option α → Except Failure α
  | some a => .ok a
  | none => .error (.ofCause (.missing k p))

/-- The parts of an entry that its kind needs; others are ignored. -/
def arg (u : UopEntry) (k : Kind) : Except Failure Arg :=
  match k with
  | .defineGlobal | .defineVar => do return .name (← need k .name u.name)
  | .defineLocal => do
    let name ← need k .name u.name
    return .buffer name (← need k .size u.size)
  | .special => do
    let dim ← need k .dim u.dim
    return .axis dim (← need k .name u.name)
  | .const | .defineAcc => do return .literal (← need k .value u.value)
  | .alu => do
    let op ← need k .op u.op
    return .operation (← causing .unknownName (AluOp.parse op))
  | .gep => do return .index (← need k .index u.index)
  | .wmma => do return .tag (← need k .tag u.tag)
  | _ => .ok .none

def toUop (u : UopEntry) : Except Failure Uop := do
  let kind ← causing .unknownName (Kind.parse u.kind)
  let dtype ← match u.dtype with
    | none => pure none
    | some d => some <$> causing .unknownDType (DType.parse d)
  let arg ← u.arg kind
  return ⟨kind, dtype, u.src, arg⟩

end UopEntry

namespace BufferEntry

def format (b : BufferEntry) : Except Failure ScalarType :=
  during (.buffer b.name) (causing .unknownDType (ScalarType.parse b.dtype))

/-- A buffer of the given elements. -/
def filled (t : ScalarType) (vs : Except ConvertError (List Value)) : Except Failure Buffer :=
  causing .conversion (vs.bind (Buffer.ofValues t))

/-- So many numbers from `start + i * step` on, as elements, up to the first that
is none. -/
def sequence (t : ScalarType) (start step : Binary64) (i : Nat) :
    Nat → Except ConvertError (List Value)
  | 0 => .ok []
  | count + 1 => do
    let v ← Value.ofFloat (start.add ((Binary64.ofInt i).mul step)) t
    return v :: (← sequence t start step (i + 1) count)

/-- The buffer with its first contents. A pattern of listed values must list as
many as the buffer has. -/
def input (b : BufferEntry) : Except Failure Buffer := do
  let t ← b.format
  match b.pattern with
  | .zeros => return .zeros t b.size
  | .sequential start step => filled t (sequence t start step 0 b.size)
  | .constant l => filled t ((l.toValue t).map (List.replicate b.size))
  | .values ls =>
    if ls.length = b.size then filled t (ls.mapM fun l => l.toValue t)
    else .error (.ofCause (.valueCount b.name ls.length b.size))

end BufferEntry

/-- The instructions of entries that start at a position. -/
def uopsFrom (pc : Nat) : List UopEntry → Except Failure (List Uop)
  | [] => .ok []
  | u :: r => do
    let u ← during (.uop pc) u.toUop
    return u :: (← uopsFrom (pc + 1) r)

namespace Manifest

def program (m : Manifest) : Except Failure Program := do
  return ⟨← uopsFrom 0 m.uops⟩

def inputs (m : Manifest) : Except Failure (List Buffer) :=
  m.buffers.mapM BufferEntry.input

def launch (m : Manifest) (wait : Bool) : Launch :=
  { global := m.global
    warp := m.warp
    launchValues := m.launchValues.map (·.value)
    wait := wait }

end Manifest

end Lockstep
