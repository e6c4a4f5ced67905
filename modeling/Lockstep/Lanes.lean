import Lockstep.Value.Basic

/-!
# Values of a warp

Every value of a program exists once per lane. A vector holds one list of lanes
per element; a buffer handle is the same on every lane.
-/

namespace Lockstep

/-- A buffer of the caller, or one allocated at the current grid point; both
counted in the order of their definition. -/
inductive BufferRef where
  | global (n : Nat)
  | scratch (n : Nat)
  deriving DecidableEq

def BufferRef.text : BufferRef → String
  | global n => s!"Global({n})"
  | scratch n => s!"Local({n})"

instance : ToString BufferRef := ⟨BufferRef.text⟩

/-- A buffer seen as elements of one type. -/
structure View where
  buffer : BufferRef
  format : ScalarType
  deriving DecidableEq

/-- One value per lane. -/
abbrev Lanes := List Value

/-- What a table of values holds for one instruction. -/
inductive LaneValues where
  | scalar (lanes : Lanes)
  | vector (elements : List Lanes)
  | buffer (views : List View)
  deriving DecidableEq

namespace LaneValues

def scalar? : LaneValues → Option Lanes
  | scalar l => some l
  | _ => none

def vector? : LaneValues → Option (List Lanes)
  | vector es => some es
  | _ => none

def buffer? : LaneValues → Option (List View)
  | buffer vs => some vs
  | _ => none

/-- Element `j` of a vector; a scalar stands for each of its elements. -/
def element? (j : Nat) : LaneValues → Option Lanes
  | scalar l => some l
  | vector es => es[j]?
  | buffer _ => none

def laneCount : LaneValues → Nat
  | scalar l => l.length
  | vector [] => 0
  | vector (e :: _) => e.length
  | buffer vs => vs.length

end LaneValues

end Lockstep
