import Lockstep.Value.Basic
import Lockstep.Wide

/-!
# Conversion of values

A conversion either gives a value of the target type or says why there is none:
the number is out of the target's range, or nothing in the target can stand for
it.
-/

namespace Lockstep

/-- Why a number has no value of a type. -/
inductive ConvertError where
  | overflow (number : Number) (target : ScalarType)
  | incompatible (number : Number) (target : ScalarType)
  deriving DecidableEq

def ConvertError.message : ConvertError → String
  | overflow n t => s!"{n} overflows {t.name}"
  | incompatible n t => s!"{n} cannot be converted to {t.name}"

instance : ToString ConvertError := ⟨ConvertError.message⟩

namespace Value

/-- Every non-finite number is a float of every width; a finite one must not
exceed the largest of the width. -/
def ofFloatChecked (t : FloatType) (x : Binary64) : Except ConvertError Value :=
  if x.isFinite && t.max.lt x.abs then .error (.overflow (.real x) (.float t))
  else .ok (float t x)

/-- Only 0 and 1 are truth values. -/
def ofInt (i : Int) (target : ScalarType) : Except ConvertError Value :=
  match target with
  | .bool =>
    if i = 0 then .ok (bool false)
    else if i = 1 then .ok (bool true)
    else .error (.incompatible (.whole i) .bool)
  | .int t =>
    if t.contains i then .ok (int t i) else .error (.overflow (.whole i) (.int t))
  | .float t => ofFloatChecked t (.ofInt i)

/-- An integer target takes the integer part of a finite number. -/
def ofFloat (x : Binary64) (target : ScalarType) : Except ConvertError Value :=
  match target with
  | .bool =>
    if x.isZero then .ok (bool false)
    else if x.eq .one then .ok (bool true)
    else .error (.incompatible (.real x) .bool)
  | .int t =>
    match x.truncate with
    | some i => ofInt (Wide.clamp i) (.int t)
    | none => .error (.incompatible (.real x) (.int t))
  | .float t => ofFloatChecked t x

def ofNumber (n : Number) (target : ScalarType) : Except ConvertError Value :=
  match n with
  | .truth b => ofInt (if b then 1 else 0) target
  | .whole i => ofInt i target
  | .real x => ofFloat x target

/-- A value of the target type stays as it is. -/
def convert (v : Value) (target : ScalarType) : Except ConvertError Value :=
  if v.type = target then .ok v else ofNumber v.number target

end Value

end Lockstep
