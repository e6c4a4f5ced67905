import Lockstep.Buffer.Codec

/-!
# Buffers

A buffer is a run of bytes with the type of its elements. It can be read and
written as elements of any other type that divides it.
-/

namespace Lockstep

/-- Bytes with the type of their elements. -/
structure Buffer where
  format : ScalarType
  bytes : Array UInt8
  deriving DecidableEq

/-- Why bytes do not fit a buffer. -/
inductive CopyError where
  | sizeMismatch (buffer host : Nat)
  | ragged (bytes : Nat) (format : ScalarType)
  deriving DecidableEq

def CopyError.message : CopyError → String
  | sizeMismatch b h => s!"copy size mismatch: buffer holds {b} bytes, host side has {h}"
  | ragged n t => s!"{n} bytes is not a whole number of {t.name} elements"

/-- The bytes with those from `start` on replaced. -/
def overwrite (bytes : Array UInt8) (start : Nat) : List UInt8 → Array UInt8
  | [] => bytes
  | b :: r => overwrite (bytes.setIfInBounds start b) (start + 1) r

/-- The first `count` parts of `size` bytes each. -/
def chunks (size : Nat) : (count : Nat) → List UInt8 → List (List UInt8)
  | 0, _ => []
  | count + 1, bytes => bytes.take size :: chunks size count (bytes.drop size)

namespace Buffer

/-- A buffer of `length` zero elements. There is always room for its bytes: that a machine has
only so many of them, and counts them in words, is left out. -/
def zeros (t : ScalarType) (length : Nat) : Buffer :=
  ⟨t, Array.replicate (length * t.size) 0⟩

/-- Size in bytes. -/
def size (b : Buffer) : Nat := b.bytes.size

/-- The bytes are a whole number of elements. -/
def fits (b : Buffer) (t : ScalarType) : Bool :=
  b.size % t.size == 0

def checkView (b : Buffer) (t : ScalarType) : Except CopyError Unit :=
  if b.fits t then .ok () else .error (.ragged b.size t)

def ofBytes (t : ScalarType) (bytes : Array UInt8) : Except CopyError Buffer :=
  let b : Buffer := ⟨t, bytes⟩
  (b.checkView t).map fun _ => b

/-- Number of elements when seen as elements of type `t`. -/
def lengthAs (b : Buffer) (t : ScalarType) : Nat :=
  b.size / t.size

def length (b : Buffer) : Nat := b.lengthAs b.format

/-- Element `i` when seen as elements of type `t`. -/
def readAs? (b : Buffer) (t : ScalarType) (i : Nat) : Option Value :=
  if i * t.size + t.size ≤ b.size then
    some (decodeElement t (b.bytes.extract (i * t.size) (i * t.size + t.size)).toList)
  else none

def read? (b : Buffer) (i : Nat) : Option Value := b.readAs? b.format i

/-- Writes element `i` as an element of type `t`. A write past the end changes
nothing; the format of the buffer stays. -/
def writeAs (b : Buffer) (t : ScalarType) (i : Nat) (v : Value) : Except ConvertError Buffer :=
  if i * t.size + t.size ≤ b.size then
    (encodeElement t v).map fun bytes => { b with bytes := overwrite b.bytes (i * t.size) bytes }
  else .ok b

def write (b : Buffer) (i : Nat) (v : Value) : Except ConvertError Buffer :=
  b.writeAs b.format i v

/-- Writes values one after the other from element `i` on. -/
def writeAll (b : Buffer) (i : Nat) : List Value → Except ConvertError Buffer
  | [] => .ok b
  | v :: r => do
    let b ← b.write i v
    b.writeAll (i + 1) r

def ofValues (t : ScalarType) (vs : List Value) : Except ConvertError Buffer :=
  (zeros t vs.length).writeAll 0 vs

/-- All elements in order: the bytes taken apart, and each part decoded. -/
def toValues (b : Buffer) : List Value :=
  (chunks b.format.size b.length b.bytes.toList).map (decodeElement b.format)

end Buffer

end Lockstep
