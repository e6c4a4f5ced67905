import Lockstep.Manifest.Program

/-!
# Reports

A manifest is run and its buffers are compared with what they should hold. The
report counts the entries that match and names the first that does not.
-/

namespace Lockstep

/-- Relative tolerance of the comparison with a float, and absolute below one. -/
def tolerance : Binary64 := Decimal.nearest false ⟨1, -5⟩

/-- A float is met within the tolerance, and a NaN by a NaN; any other literal is
met by an equal number. -/
def Literal.isMetBy (expected : Literal) (actual : Value) : Bool :=
  match expected with
  | .float e =>
    let a := actual.toFloat
    e.isNaN && a.isNaN ||
      (a.sub e).abs.le (tolerance.mul (if e.abs.lt .one || e.isNaN then .one else e.abs))
  | _ => actual.numericEq expected.value

/-- An entry that is not met. Without a value, the buffer ends before it. -/
structure Mismatch where
  buffer : String
  index : Nat
  expected : Literal
  actual : Option Value
  deriving DecidableEq

/-- How the message writes what was found. -/
def Mismatch.actualText (m : Mismatch) : String :=
  match m.actual with
  | some v => v.text
  | none => "nothing"

def Mismatch.message (m : Mismatch) : String :=
  s!"{m.buffer}[{m.index}]: expected {m.expected.value}, got {m.actualText}"

/-- How many entries were met, of how many, and the first that was not. -/
structure Tally where
  correct : Nat
  total : Nat
  mismatch : Option Mismatch
  deriving DecidableEq

namespace Tally

def empty : Tally := ⟨0, 0, none⟩

/-- The count of both; of two mismatches, the first. -/
def append (s t : Tally) : Tally :=
  ⟨s.correct + t.correct, s.total + t.total, s.mismatch <|> t.mismatch⟩

/-- One entry of a buffer. -/
def ofEntry (buffer : String) (index : Nat) (expected : Literal) (actual : Option Value) :
    Tally :=
  if actual.any expected.isMetBy then ⟨1, 1, none⟩
  else ⟨0, 1, some ⟨buffer, index, expected, actual⟩⟩

/-- The entries of a buffer from an index on. -/
def ofEntries (buffer : String) (actual : List Value) (index : Nat) : List Literal → Tally
  | [] => empty
  | e :: r => (ofEntry buffer index e actual[index]?).append (ofEntries buffer actual (index + 1) r)

/-- A buffer, if its contents are to be compared. -/
def ofBuffer (entry : BufferEntry) (b : Buffer) : Tally :=
  match entry.expect with
  | none => empty
  | some es => ofEntries entry.name b.toValues 0 es

/-- The buffers of a launch in order. -/
def ofBuffers : List BufferEntry → List Buffer → Tally
  | e :: es, b :: bs => (ofBuffer e b).append (ofBuffers es bs)
  | _, _ => empty

end Tally

/-- What came of running a manifest. -/
structure Report where
  name : String
  tally : Tally
  /-- instructions executed -/
  instructions : Nat
  /-- the time of the launch was asked for -/
  timed : Bool
  deriving DecidableEq

/-- Every entry is met. -/
def Report.passed (r : Report) : Bool :=
  r.tally.correct == r.tally.total

namespace Manifest

/-- Launches the program, of at most `limit` instructions for each grid point.
Gives the engine and the buffers after the launch. -/
def execute (m : Manifest) (limit : Nat) (wait : Bool) : Except Failure (Engine × List Buffer) := do
  let p ← m.program
  let bs ← m.inputs
  let e ← causing .fault (Engine.create p)
  match e.launch limit (m.launch wait) bs with
  | (e, bs, .halted) => return (e, bs)
  | (_, _, .failed f) => throw (.ofCause (.fault f))
  | (_, _, .unfinished) => throw (.ofCause .unfinished)

/-- Runs a manifest and compares its buffers. -/
def run (m : Manifest) (limit : Nat) (wait : Bool) : Except Failure Report := do
  let (e, bs) ← m.execute limit wait
  return ⟨m.name, .ofBuffers m.buffers bs, e.instructions, wait⟩

end Manifest

end Lockstep
