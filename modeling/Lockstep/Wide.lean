/-!
# Wide integers

Results and addresses are computed in 128-bit integers, wider than every value. A sum or a
product of addresses that is no wide integer is not rounded or wrapped: it is an overflow.
-/

namespace Lockstep.Wide

/-- The least wide integer, `-2 ^ 127`. -/
def min : Int := -0x80000000000000000000000000000000

/-- The greatest wide integer, `2 ^ 127 - 1`. -/
def max : Int := 0x7FFFFFFFFFFFFFFFFFFFFFFFFFFFFFFF

def contains (i : Int) : Bool :=
  decide (min ≤ i ∧ i ≤ max)

/-- The nearest integer of the range. -/
def clamp (i : Int) : Int :=
  if i < min then min else if max < i then max else i

/-- The operation whose result is no wide integer. -/
inductive Overflow where
  | add | multiply
  deriving DecidableEq

def Overflow.message : Overflow → String
  | add => "attempt to add with overflow"
  | multiply => "attempt to multiply with overflow"

/-- A result, if it is a wide integer. -/
def checked (cause : Overflow) (i : Int) : Except Overflow Int :=
  if contains i then .ok i else .error cause

def add (i j : Int) : Except Overflow Int := checked .add (i + j)

def multiply (i j : Int) : Except Overflow Int := checked .multiply (i * j)

end Lockstep.Wide
