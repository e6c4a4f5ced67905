import Lockstep.Step

/-!
# Runs

A program runs at one grid point until it halts or fails. A run is cut off after
a number of instructions.
-/

namespace Lockstep

/-- How the run at one grid point ends. -/
inductive Ending where
  | halted
  | failed (f : Fault)
  /-- cut off -/
  | unfinished
  deriving DecidableEq

namespace Context

/-- Moves to the next instruction. -/
def follow (c : Context) : Control → Context
  | .proceed => { c with pc := c.pc + 1 }
  | .jump target => { c with pc := target }
  | .halt => c

end Context

/-- Runs at most `limit` instructions. -/
def run (p : Program) : Nat → Context → Context × Ending
  | 0, c => (c, .unfinished)
  | limit + 1, c =>
    match step p c with
    | (c, .error f) => (c, .failed f)
    | (c, .ok .halt) => (c, .halted)
    | (c, .ok control) => run p limit (c.follow control)

/-- A step of a run: the contexts around it and what came of it. -/
structure Moment where
  before : Context
  after : Context
  outcome : Except Fault Control

/-- The steps of a run of at most `limit` instructions. -/
def history (p : Program) : Nat → Context → List Moment
  | 0, _ => []
  | limit + 1, c =>
    match step p c with
    | (d, .error f) => [⟨c, d, .error f⟩]
    | (d, .ok .halt) => [⟨c, d, .ok .halt⟩]
    | (d, .ok control) => ⟨c, d, .ok control⟩ :: history p limit (d.follow control)

end Lockstep
