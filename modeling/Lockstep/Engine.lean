import Lockstep.Program.Validate
import Lockstep.Run

/-!
# Engine

Launches a well-formed program over a grid. Grid points run one after another in
the order of enumeration and share nothing but the buffers; the first that does
not halt ends the launch. A crash is put to account like any other fault: that the
engine does not live to do so is left out.
-/

namespace Lockstep

/-- How often, and with which values, a program is run. -/
structure Launch where
  /-- extent of the grid -/
  global : Point
  /-- extent of the warp -/
  warp : Point
  launchValues : List Value
  /-- the time of the launch is asked for -/
  wait : Bool
  deriving DecidableEq

/-- Where an engine stands. -/
inductive Status where
  | ready
  | completed
  | error
  deriving DecidableEq, Repr

/-- A program with an account of what it has run. -/
structure Engine where
  program : Program
  status : Status
  /-- grid points run -/
  iterations : Nat
  /-- instructions executed -/
  instructions : Nat

namespace Engine

def create (p : Program) : Except Fault Engine :=
  p.validate.map fun _ => ⟨p, .ready, 0, 0⟩

/-- One grid point, of at most `limit` instructions. -/
def runPoint (e : Engine) (limit : Nat) (l : Launch) (point : Point) (buffers : List Buffer) :
    Engine × List Buffer × Ending :=
  let (c, ending) := run e.program limit (.start point ⟨l.warp⟩ buffers l.launchValues)
  ({ e with
      iterations := e.iterations + 1
      instructions := e.instructions + c.instructions }, c.memory.globals, ending)

/-- The `count` grid points from the `n`-th on. -/
def runPoints (e : Engine) (limit : Nat) (l : Launch) (buffers : List Buffer) (n : Nat) :
    Nat → Engine × List Buffer × Ending
  | 0 => (e, buffers, .halted)
  | count + 1 =>
    match e.runPoint limit l (Grid.point l.global n) buffers with
    | (e, buffers, .halted) => e.runPoints limit l buffers (n + 1) count
    | stopped => stopped

/-- Runs the program at every point of the grid, of at most `limit` instructions
each. -/
def launch (e : Engine) (limit : Nat) (l : Launch) (buffers : List Buffer) :
    Engine × List Buffer × Ending :=
  let (e, buffers, ending) := e.runPoints limit l buffers 0 l.global.volume
  ({ e with status := if ending = .halted then .completed else .error }, buffers, ending)

end Engine

end Lockstep
