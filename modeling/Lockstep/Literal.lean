import Lockstep.Value.Convert

/-!
# Literals

Untyped constants, as programs and manifests write them.
-/

namespace Lockstep

/-- A constant without a type. -/
inductive Literal where
  | bool (b : Bool)
  | int (i : Int)
  | float (x : Binary64)
  deriving DecidableEq

namespace Literal

def number : Literal → Number
  | bool b => .truth b
  | int i => .whole i
  | float x => .real x

def toValue (l : Literal) (t : ScalarType) : Except ConvertError Value :=
  Value.ofNumber l.number t

/-- The literal in the type that is natural to it. -/
def value : Literal → Value
  | bool b => .bool b
  | int i => .int .int64 i
  | float x => .float .float64 x

end Literal

end Lockstep
