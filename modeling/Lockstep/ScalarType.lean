import Lockstep.Binary.Binary64

/-!
# Scalar types

Truth values, integers of 8 to 64 bits and floats of 16 to 64 bits. Every type
has a rank; the type an operation is evaluated in is the one of highest rank
among its operands.
-/

namespace Lockstep

/-- The integer types, signed and unsigned. -/
inductive IntType where
  | int8 | int16 | int32 | int64
  | uint8 | uint16 | uint32 | uint64
  deriving DecidableEq, Repr

namespace IntType

def isSigned : IntType → Bool
  | int8 | int16 | int32 | int64 => true
  | uint8 | uint16 | uint32 | uint64 => false

/-- Size of one element in bytes. -/
def size : IntType → Nat
  | int8 | uint8 => 1
  | int16 | uint16 => 2
  | int32 | uint32 => 4
  | int64 | uint64 => 8

def bits (t : IntType) : Nat := t.size * 8

def min (t : IntType) : Int :=
  if t.isSigned then -Nat.pow 2 (t.bits - 1) else 0

def max (t : IntType) : Int :=
  if t.isSigned then Nat.pow 2 (t.bits - 1) - 1 else Nat.pow 2 t.bits - 1

def contains (t : IntType) (i : Int) : Bool :=
  decide (t.min ≤ i ∧ i ≤ t.max)

/-- The 64-bit type of the same signedness. -/
def widest (t : IntType) : IntType :=
  if t.isSigned then int64 else uint64

end IntType

/-- The binary interchange formats in use. -/
inductive FloatType where
  | float16 | float32 | float64
  deriving DecidableEq, Repr

namespace FloatType

def size : FloatType → Nat
  | float16 => 2
  | float32 => 4
  | float64 => 8

/-- The format of an element in memory. -/
def format : FloatType → BinaryFormat
  | float16 => .half
  | float32 => .single
  | float64 => .double

/-- Largest finite magnitude. -/
def max : FloatType → Binary64
  | float16 => ⟨0x40EFFC0000000000⟩
  | float32 => ⟨0x47EFFFFFE0000000⟩
  | float64 => ⟨0x7FEFFFFFFFFFFFFF⟩

end FloatType

/-- The type of one element. -/
inductive ScalarType where
  | bool
  | int (t : IntType)
  | float (t : FloatType)
  deriving DecidableEq, Repr

/-- Signed and unsigned integers of one width share a rank but not a family. -/
inductive Family where
  | bool | signed | unsigned | float
  deriving DecidableEq

namespace ScalarType

/-- All types, in the order of their declaration. -/
def all : List ScalarType :=
  [bool, int .int8, int .int16, int .int32, int .int64,
   int .uint8, int .uint16, int .uint32, int .uint64,
   float .float16, float .float32, float .float64]

def family : ScalarType → Family
  | bool => .bool
  | int t => if t.isSigned then .signed else .unsigned
  | float _ => .float

def isBool (t : ScalarType) : Bool := t.family == .bool
def isSigned (t : ScalarType) : Bool := t.family == .signed
def isUnsigned (t : ScalarType) : Bool := t.family == .unsigned
def isFloat (t : ScalarType) : Bool := t.family == .float
def isInt (t : ScalarType) : Bool := t.isSigned || t.isUnsigned

/-- Size of one element in bytes. -/
def size : ScalarType → Nat
  | bool => 1
  | int t => t.size
  | float t => t.size

def bits (t : ScalarType) : Nat := t.size * 8

def rank : ScalarType → Nat
  | bool => 0
  | int .int8 | int .uint8 => 1
  | int .int16 | int .uint16 => 2
  | int .int32 | int .uint32 => 3
  | int .int64 | int .uint64 => 4
  | float .float16 => 5
  | float .float32 => 6
  | float .float64 => 7

/-- The widest type of the same family, in which a result that overflows is
represented instead. -/
def upgraded : ScalarType → ScalarType
  | bool => bool
  | int t => int t.widest
  | float _ => float .float64

/-- One-letter element code. -/
def code : ScalarType → Char
  | bool => '?'
  | int .int8 => 'b'
  | int .int16 => 'h'
  | int .int32 => 'i'
  | int .int64 => 'q'
  | int .uint8 => 'B'
  | int .uint16 => 'H'
  | int .uint32 => 'I'
  | int .uint64 => 'Q'
  | float .float16 => 'e'
  | float .float32 => 'f'
  | float .float64 => 'd'

def name : ScalarType → String
  | bool => "bool"
  | int .int8 => "int8"
  | int .int16 => "int16"
  | int .int32 => "int32"
  | int .int64 => "int64"
  | int .uint8 => "uint8"
  | int .uint16 => "uint16"
  | int .uint32 => "uint32"
  | int .uint64 => "uint64"
  | float .float16 => "float16"
  | float .float32 => "float32"
  | float .float64 => "float64"

/-- Other accepted spellings. -/
def aliases : ScalarType → List String
  | bool => []
  | int .int8 => ["char", "i8"]
  | int .int16 => ["short", "i16"]
  | int .int32 => ["int", "i32"]
  | int .int64 => ["long", "i64"]
  | int .uint8 => ["uchar", "u8"]
  | int .uint16 => ["ushort", "u16"]
  | int .uint32 => ["uint", "u32"]
  | int .uint64 => ["ulong", "u64"]
  | float .float16 => ["half", "f16"]
  | float .float32 => ["float", "f32"]
  | float .float64 => ["double", "f64"]

def ofName? (s : String) : Option ScalarType :=
  all.find? fun t => t.name == s || t.aliases.contains s

end ScalarType

end Lockstep
