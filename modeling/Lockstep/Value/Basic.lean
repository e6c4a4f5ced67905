import Lockstep.Decimal.Layout
import Lockstep.ScalarType

/-!
# Values

A value carries its scalar type. Floats of every width keep a double as their
payload and are rounded only when they are written to a buffer.
-/

namespace Lockstep

/-- A typed number. -/
inductive Value where
  | bool (b : Bool)
  | int (t : IntType) (i : Int)
  | float (t : FloatType) (x : Binary64)
  deriving DecidableEq

/-- A number before it is given a type. -/
inductive Number where
  | truth (b : Bool)
  | whole (i : Int)
  | real (x : Binary64)
  deriving DecidableEq

namespace Number

def toFloat : Number → Binary64
  | truth b => if b then .one else .zero
  | whole i => .ofInt i
  | real x => x

def text : Number → String
  | truth b => toString b
  | whole i => toString i
  | real x => Layout.plain.text x

instance : ToString Number := ⟨text⟩

end Number

namespace Value

def type : Value → ScalarType
  | bool _ => .bool
  | int t _ => .int t
  | float t _ => .float t

def number : Value → Number
  | bool b => .truth b
  | int _ i => .whole i
  | float _ x => .real x

def zero : ScalarType → Value
  | .bool => bool false
  | .int t => int t 0
  | .float t => float t .zero

/-- The integer that a truth value or an integer stands for. -/
def toInt? : Value → Option Int
  | bool b => some (if b then 1 else 0)
  | int _ i => some i
  | float _ _ => none

def toFloat (v : Value) : Binary64 :=
  v.number.toFloat

/-- Not zero; a NaN counts as true. -/
def truthy : Value → Bool
  | bool b => b
  | int _ i => i != 0
  | float _ x => !x.isZero

/-- Equality of the numbers, whatever their types. Two integers are compared
exactly, all other pairs as floats. -/
def numericEq (a b : Value) : Bool :=
  match a.toInt?, b.toInt? with
  | some i, some j => i == j
  | _, _ => a.toFloat.eq b.toFloat

/-- Same type and equal payload; a NaN differs from itself. -/
def same : Value → Value → Bool
  | bool a, bool b => a == b
  | int s i, int t j => s == t && i == j
  | float s x, float t y => s == t && x.eq y
  | _, _ => false

def text (v : Value) : String :=
  v.number.text

instance : ToString Value := ⟨text⟩

/-- An integer lies in the range of its type. -/
def WellFormed : Value → Prop
  | int t i => t.contains i = true
  | _ => True

instance (v : Value) : Decidable v.WellFormed := by
  cases v <;> unfold WellFormed <;> infer_instance

end Value

end Lockstep
