import Lockstep.Binary.Format

/-!
# Double-precision numbers by their bits

A `Binary64` is the 64-bit word of a double, so the bits of a NaN are kept.
Order, sign, truncation and conversion between widths are defined on the word;
the rounded operations go through `Float`.
-/

namespace Lockstep

/-- A double, as its word. -/
structure Binary64 where
  bits : UInt64
  deriving DecidableEq

namespace Binary64

instance : Inhabited Binary64 := ⟨⟨0⟩⟩

/-- The word without its sign bit. -/
def magnitude (x : Binary64) : Nat :=
  x.bits.toNat % 0x8000000000000000

def negative (x : Binary64) : Bool :=
  decide (0x8000000000000000 ≤ x.bits.toNat)

def infinityMagnitude : Nat := 0x7FF0000000000000

def isNaN (x : Binary64) : Bool :=
  decide (infinityMagnitude < x.magnitude)

def isFinite (x : Binary64) : Bool :=
  decide (x.magnitude < infinityMagnitude)

def zero : Binary64 := ⟨0⟩
def one : Binary64 := ⟨0x3FF0000000000000⟩

/-- The NaN that a function gives outside its domain. -/
def undefined : Binary64 := ⟨0x7FF8000000000000⟩

/-- The NaN that an operation on numbers gives when it has no result, such as
the difference of two equal infinities. -/
def invalid : Binary64 := ⟨0xFFF8000000000000⟩

/-- The NaN with its quiet bit set. -/
def quiet (x : Binary64) : Binary64 :=
  ⟨x.bits ||| 0x0008000000000000⟩

def neg (x : Binary64) : Binary64 :=
  ⟨x.bits ^^^ 0x8000000000000000⟩

def abs (x : Binary64) : Binary64 :=
  ⟨UInt64.ofNat x.magnitude⟩

/-! ## Order -/

/-- Position of a number on the ordered line of doubles; the two zeros share a
position. -/
def key (x : Binary64) : Int :=
  if x.negative then -(x.magnitude : Int) else x.magnitude

def eq (x y : Binary64) : Bool :=
  !x.isNaN && !y.isNaN && decide (x.key = y.key)

def lt (x y : Binary64) : Bool :=
  !x.isNaN && !y.isNaN && decide (x.key < y.key)

def le (x y : Binary64) : Bool :=
  !x.isNaN && !y.isNaN && decide (x.key ≤ y.key)

/-- A NaN counts as non-zero. -/
def isZero (x : Binary64) : Bool :=
  decide (x.magnitude = 0)

/-! ## Conversions -/

def datum (x : Binary64) : Datum :=
  BinaryFormat.double.decode x.bits.toNat

/-- The double nearest to a datum. -/
def ofDatum (d : Datum) : Binary64 :=
  ⟨UInt64.ofNat (BinaryFormat.double.encode d)⟩

/-- The double nearest to an integer. -/
def ofInt (i : Int) : Binary64 :=
  ofDatum (.finite (decide (i < 0)) i.natAbs 0)

/-- The number that a word of another format stands for. -/
def ofWord (f : BinaryFormat) (w : Nat) : Binary64 :=
  ofDatum (f.decode w)

/-- The word of another format nearest to a number. -/
def toWord (f : BinaryFormat) (x : Binary64) : Nat :=
  f.encode x.datum

/-- The integer part; infinities and NaNs have none. -/
def truncate (x : Binary64) : Option Int :=
  match x.datum with
  | .finite s m e =>
    let n := if 0 ≤ e then m * Nat.pow 2 e.toNat else m / Nat.pow 2 (-e).toNat
    some (if s then -(n : Int) else n)
  | _ => none

/-! ## Rounded operations -/

def ofFloat (x : Float) : Binary64 :=
  if x.isNaN then invalid else ⟨x.toBits⟩

def toFloat (x : Binary64) : Float :=
  Float.ofBits x.bits

/-- A unary operation; a NaN passes through. -/
def lift (f : Float → Float) (x : Binary64) : Binary64 :=
  if x.isNaN then x.quiet else ofFloat (f x.toFloat)

/-- A binary operation; the first NaN passes through. -/
def lift₂ (f : Float → Float → Float) (x y : Binary64) : Binary64 :=
  if x.isNaN then x.quiet
  else if y.isNaN then y.quiet
  else ofFloat (f x.toFloat y.toFloat)

def add : Binary64 → Binary64 → Binary64 := lift₂ Float.add
def sub : Binary64 → Binary64 → Binary64 := lift₂ Float.sub
def mul : Binary64 → Binary64 → Binary64 := lift₂ Float.mul
def div : Binary64 → Binary64 → Binary64 := lift₂ Float.div
def sqrt : Binary64 → Binary64 := lift Float.sqrt
def log2 : Binary64 → Binary64 := lift Float.log2
def exp2 : Binary64 → Binary64 := lift Float.exp2
def sin : Binary64 → Binary64 := lift Float.sin

end Binary64

end Lockstep
