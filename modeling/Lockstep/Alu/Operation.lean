import Lockstep.Alu.Promotion
import Lockstep.Wide

/-!
# Operations on numbers

What each operation does to numbers of one evaluation type. Integers are exact
within the wide range; floats are doubles.
-/

namespace Lockstep

namespace Alu

/-- Why there is no number. -/
inductive NoNumber where
  | undefined
  /-- outside the wide integers -/
  | beyond
  deriving DecidableEq

abbrev Outcome := Except NoNumber Number

/-- An integer result. -/
def whole (i : Int) : Outcome :=
  if Wide.contains i then .ok (.whole i) else .error .beyond

/-- The number of an operand in the family of the evaluation type. -/
def operandNumber (family : Family) (v : Value) : Number :=
  match v.number, family with
  | .real x, _ => .real x
  | .truth b, .bool => .truth b
  | n, .float => .real n.toFloat
  | .truth b, _ => .whole (if b then 1 else 0)
  | .whole i, _ => .whole i

def isNumeric (t : ScalarType) : Bool := t.isInt || t.isFloat

/-- Exact on two integers, rounded as soon as one is a float. -/
def arithmetic (exact : Int → Int → Int) (rounded : Binary64 → Binary64 → Binary64) :
    Number → Number → Outcome
  | .whole i, .whole j => whole (exact i j)
  | .truth _, _ => .error .undefined
  | _, .truth _ => .error .undefined
  | a, b => .ok (.real (rounded a.toFloat b.toFloat))

def binary (t : ScalarType) (exact : Int → Int → Int)
    (rounded : Binary64 → Binary64 → Binary64) : List Number → Outcome
  | [a, b] => if isNumeric t then arithmetic exact rounded a b else .error .undefined
  | _ => .error .undefined

def ofFloat (t : ScalarType) (f : Binary64 → Binary64) : List Number → Outcome
  | [a] => if t.isFloat then .ok (.real (f a.toFloat)) else .error .undefined
  | _ => .error .undefined

def compare (t : ScalarType) (exact : Int → Int → Bool) (rounded : Binary64 → Binary64 → Bool) :
    List Number → Outcome
  | [.whole i, .whole j] => if isNumeric t then .ok (.truth (exact i j)) else .error .undefined
  | [a, b] =>
    if isNumeric t then .ok (.truth (rounded a.toFloat b.toFloat)) else .error .undefined
  | _ => .error .undefined

/-- The sum is taken after the product. -/
def mulacc (t : ScalarType) : List Number → Outcome
  | [a, b, c] =>
    if isNumeric t then do
      let p ← arithmetic (· * ·) .mul a b
      arithmetic (· + ·) .add p c
    else .error .undefined
  | _ => .error .undefined

def select : List Number → Outcome
  | [.truth c, a, b] => .ok (if c then a else b)
  | _ => .error .undefined

def neg (t : ScalarType) : List Number → Outcome
  | [.whole i] => if isNumeric t then whole (-i) else .error .undefined
  | [.real x] => if isNumeric t then .ok (.real x.neg) else .error .undefined
  | _ => .error .undefined

/-- Bitwise on the two's complement words of the type. -/
def xorWords (bits : Nat) (i j : Int) : Int :=
  (BitVec.ofInt bits i ^^^ BitVec.ofInt bits j).toInt

def xor (t : ScalarType) : List Number → Outcome
  | [.whole i, .whole j] =>
    if t.isSigned then .ok (.whole (xorWords t.bits i j)) else .error .undefined
  | _ => .error .undefined

/-- Floored on integers, which have no quotient by zero; on floats the quotient
by zero is a NaN. -/
def div (t : ScalarType) : List Number → Outcome
  | [.whole i, .whole j] =>
    if t.isInt && j != 0 then whole (i.fdiv j) else .error .undefined
  | [a, b] =>
    if t.isFloat then
      .ok (.real (if b.toFloat.isZero then .undefined else a.toFloat.div b.toFloat))
    else .error .undefined
  | _ => .error .undefined

/-- The remainder of the floored quotient, for signed integers only. -/
def mod (t : ScalarType) : List Number → Outcome
  | [.whole i, .whole j] =>
    if t.isSigned && j != 0 then whole (i.fmod j) else .error .undefined
  | _ => .error .undefined

/-- The second operand only if it is greater. -/
def maxFloat (x y : Binary64) : Binary64 := if x.lt y then y else x

def log2 (x : Binary64) : Binary64 := if Binary64.zero.lt x then x.log2 else .undefined

def sqrt (x : Binary64) : Binary64 := if Binary64.zero.le x then x.sqrt else .undefined

/-- The number that an operation gives in an evaluation type. -/
def apply (op : AluOp) (t : ScalarType) (ns : List Number) : Outcome :=
  match op with
  | .mulacc => mulacc t ns
  | .select => select ns
  | .log2 => ofFloat t log2 ns
  | .exp2 => ofFloat t .exp2 ns
  | .sqrt => ofFloat t sqrt ns
  | .sin => ofFloat t .sin ns
  | .neg => neg t ns
  | .mul => binary t (· * ·) .mul ns
  | .add => binary t (· + ·) .add ns
  | .sub => binary t (· - ·) .sub ns
  | .xor => xor t ns
  | .max => binary t max maxFloat ns
  | .cmpeq => compare t (· == ·) Binary64.eq ns
  | .cmplt => compare t (fun i j => decide (i < j)) Binary64.lt ns
  | .div => div t ns
  | .mod => mod t ns
  | .noop | .cast | .recip => .error .undefined

end Alu

end Lockstep
