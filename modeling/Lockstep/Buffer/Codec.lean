import Lockstep.Value.Convert

/-!
# Element codec

Elements are stored little-endian in the format of a scalar type: truth values
as one byte, integers in two's complement, floats as words of their width.
-/

namespace Lockstep

/-- The `size` low bytes of a word, lowest first. -/
def wordBytes (w : Nat) : Nat → List UInt8
  | 0 => []
  | size + 1 => UInt8.ofNat (w % 256) :: wordBytes (w / 256) size

/-- The word whose bytes these are, lowest first. -/
def bytesWord : List UInt8 → Nat
  | [] => 0
  | b :: r => b.toNat + 256 * bytesWord r

namespace IntType

/-- The two's complement word of an integer. -/
def toWord (t : IntType) (i : Int) : Nat :=
  (i % Nat.pow 2 t.bits).toNat

/-- The integer of a two's complement word. -/
def ofWord (t : IntType) (w : Nat) : Int :=
  if t.isSigned then (w : Int).bmod (Nat.pow 2 t.bits) else w

end IntType

namespace FloatType

/-- A double is stored by its own bits; narrower floats are rounded. -/
def toWord (t : FloatType) (x : Binary64) : Nat :=
  match t with
  | float64 => x.bits.toNat
  | _ => x.toWord t.format

def ofWord (t : FloatType) (w : Nat) : Binary64 :=
  match t with
  | float64 => ⟨UInt64.ofNat w⟩
  | _ => .ofWord t.format w

end FloatType

/-- The element that the bytes hold. -/
def decodeElement (t : ScalarType) (bytes : List UInt8) : Value :=
  let w := bytesWord bytes
  match t with
  | .bool => .bool (w != 0)
  | .int s => .int s (s.ofWord w)
  | .float s => .float s (s.ofWord w)

/-- The word that stands for a value of its own type. -/
def Value.word : Value → Nat
  | bool b => if b then 1 else 0
  | int t i => t.toWord i
  | float t x => t.toWord x

/-- The bytes of a value converted to the element type. An integer element
takes no float, not even one without a fraction. -/
def encodeElement (t : ScalarType) (v : Value) : Except ConvertError (List UInt8) :=
  if t.isInt && v.type.isFloat then .error (.incompatible v.number t)
  else (v.convert t).map fun w => wordBytes w.word t.size

end Lockstep
