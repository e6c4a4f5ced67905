import Lockstep.Grid
import Lockstep.Memory.Basic
import Lockstep.Table

/-!
# Contexts

The state of a program at one point of the grid. Only the buffers of the caller
outlive it.
-/

namespace Lockstep

/-- The state at one grid point, between two instructions. -/
structure Context where
  pc : Nat
  /-- the point of the global grid -/
  point : Point
  warp : Warp
  values : Table LaneValues
  types : Table DType
  /-- the position where a loop was last seen to end -/
  loopEnds : Table Nat
  memory : Memory
  launchValues : List Value
  /-- how many launch values are bound -/
  bound : Nat
  /-- instructions executed so far, a failing one included -/
  instructions : Nat

namespace Context

/-- The context in which a program starts at a grid point. -/
def start (point : Point) (warp : Warp) (buffers : List Buffer) (launchValues : List Value) :
    Context where
  pc := 0
  point := point
  warp := warp
  values := .empty
  types := .empty
  loopEnds := .empty
  memory := .ofBuffers buffers
  launchValues := launchValues
  bound := 0
  instructions := 0

/-- Gives the current instruction its value. -/
def define (c : Context) (v : LaneValues) : Context :=
  { c with values := c.values.insert c.pc v }

end Context

end Lockstep
