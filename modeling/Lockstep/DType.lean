import Lockstep.ScalarType
import Lockstep.Text.Blank
import Lockstep.Text.Numeral

/-!
# Declared types

The type of a program value: a scalar, a short vector of one scalar type
(`float32x4`), or an image of four-channel texels (`image:float32:4x8`, height
by width).
-/

namespace Lockstep

/-- The declared type of a value. -/
inductive DType where
  | scalar (s : ScalarType)
  | vector (s : ScalarType) (count : Nat)
  | image (s : ScalarType) (height width : Nat)
  deriving DecidableEq

/-- A text that names no type. -/
structure UnknownDType where
  text : String
  deriving DecidableEq

def UnknownDType.message (e : UnknownDType) : String :=
  s!"unknown dtype '{e.text}'"

/-- Reads a name or an alias; the error keeps the blanks around it. -/
def ScalarType.parse (s : String) : Except UnknownDType ScalarType :=
  match ofName? (trimText s) with
  | some t => .ok t
  | none => .error ⟨s⟩

namespace DType

/-- A vector of at most one element is a scalar. -/
def ofCount (s : ScalarType) (count : Nat) : DType :=
  if count ≤ 1 then scalar s else vector s count

/-- The type of one element. -/
def element : DType → ScalarType
  | scalar s => s
  | vector s _ => s
  | image s _ _ => s

/-- Scalars per lane; an image counts as one. -/
def count : DType → Nat
  | vector _ n => n
  | _ => 1

def isVector (d : DType) : Bool := decide (1 < d.count)

/-- Height and width of an image. -/
def shape? : DType → Option (Nat × Nat)
  | image _ h w => some (h, w)
  | _ => none

def isImage (d : DType) : Bool := d.shape?.isSome

/-- The element format of a buffer of this type; vectors have none. -/
def format? : DType → Option ScalarType
  | scalar s => some s
  | image s _ _ => some s
  | vector _ _ => none

/-- Size in bytes of one value, which may be more than a machine word can count. -/
def size (d : DType) : Nat := d.element.size * d.count

def name : DType → String
  | scalar s => s.name
  | vector s n => s!"{s.name}x{n}"
  | image s h w => s!"image:{s.name}:{h}x{w}"

instance : ToString DType := ⟨name⟩

/-- How the text of an image type begins. -/
def imageMark : List Char := ['i', 'm', 'a', 'g', 'e', ':']

/-- What follows `image:`, a scalar name, a colon, and height `x` width. -/
def readImage? (cs : List Char) : Option DType := do
  let (s, shape) ← splitFirst? ':' cs
  let (h, w) ← splitFirst? 'x' shape
  return image (← ScalarType.ofName? (String.ofList s)) (← readWord? h) (← readWord? w)

/-- A scalar name, an `x` and a positive count. -/
def readVector? (cs : List Char) : Option DType := do
  let (s, n) ← splitLast? 'x' cs
  let s ← ScalarType.ofName? (String.ofList s)
  let n ← readWord? n
  if n = 0 then none else some (ofCount s n)

/-- Reads the text of a type without blanks around it. -/
def read? (cs : List Char) : Option DType :=
  if imageMark.isPrefixOf cs then readImage? (cs.drop imageMark.length)
  else
    match ScalarType.ofName? (String.ofList cs) with
    | some s => some (scalar s)
    | none => readVector? cs

def parse (text : String) : Except UnknownDType DType :=
  let cs := trimBlanks text.toList
  match read? cs with
  | some d => .ok d
  | none => .error ⟨String.ofList cs⟩

end DType

end Lockstep
